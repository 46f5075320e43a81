import PackageScan.Proofs.Scan.Histories
import PackageScan.Scan.Rescan

/-!
# How a rescan ends

A rescan looks up its rule and its version (`Rescan.subject`), matches the one with the other, and
stores what it has found (`Rescan.conclude`). Only then may it ask for the action of the rule. So it
ends in one of five ways (`Rescan.Ends`), each with what it leaves on the desk, whoever is asked for
actions.

Whoever is asked finds the row already stored. Two of them that do the same at the one desk at which
a rescan may ask, about the one action and the one version, cannot be told apart by the rescan
(`Rescan.runAsking_congr`).
-/

namespace PackageScan

open Logged

/-- There are matches if something has been found. -/
private theorem QueryResult.hasMatches_iff {r : QueryResult} :
    r.hasMatches = true ↔ r.found ≠ [] := by
  rw [hasMatches, Bool.not_eq_true', List.isEmpty_eq_false_iff]

/-- The desk after a counter has been raised. -/
def Desk.counting (desk : Desk) (name : String) : Desk :=
  { desk with metrics := desk.metrics.count name }

namespace Rescan

variable {ask ask' : Ask} {bench : Bench} {stamp : Stamp} {ruleId versionId : Nat} {desk : Desk}

/-! ### Before and after matching -/

/-- The rule and the version that a rescan is about. -/
def subject (store : Store) (ruleId versionId : Nat) : Except StoreError (QueryRule × Version) := do
  let rule ← store.queryRule ruleId
  let version ← store.version versionId
  return (rule, version)

/-- The result and the store that the outcome of matching leads to. -/
def conclude (stamp : Stamp) (rule : QueryRule) (version : Version) (store : Store)
    (answer : Except ScanError (List RuleMatch)) : Except ScanError (QueryResult × Store) := do
  let found ← answer
  let result := QueryResult.create stamp version.id rule.rule.id found
  let after ← (store.storeQueryResult result).mapError .store
  return (result, after)

/-- What is found is what has been asked for. -/
private theorem found_eq_ok {α : Type} {entity : String} {id : Nat} {row : α} {o : Option α}
    (h : Store.found entity id o = .ok row) : o = some row := by
  cases o with
  | none => exact nomatch h
  | some _ => exact congrArg some (Except.ok.inj h)

theorem subject_eq_ok {store : Store} {rule : QueryRule} {version : Version}
    (h : subject store ruleId versionId = .ok (rule, version)) :
    store.queryRule ruleId = .ok rule ∧ store.version versionId = .ok version ∧
      rule.rule.id = ruleId ∧ version.id = versionId := by
  obtain ⟨r, hrule, h⟩ := Outcome.bind_eq_ok.mp h
  obtain ⟨v, hversion, h⟩ := Outcome.bind_eq_ok.mp h
  cases h
  refine ⟨hrule, hversion, ?_, ?_⟩
  · have hfind := found_eq_ok (Store.guarded_eq_ok.mp hrule).2
    simpa using List.find?_some hfind
  · have hfind := found_eq_ok (Store.guarded_eq_ok.mp hversion).2
    simpa using List.find?_some hfind

/-- What is concluded is what was found, and a row more. -/
theorem of_conclude_eq_ok {rule : QueryRule} {version : Version} {store store' : Store}
    {answer : Except ScanError (List RuleMatch)} {result : QueryResult}
    (h : conclude stamp rule version store answer = .ok (result, store')) :
    (∃ found, answer = .ok found ∧ result = .create stamp version.id rule.rule.id found) ∧
      store' = store.createQueryResult result := by
  obtain ⟨found, hfound, h⟩ := Outcome.bind_eq_ok.mp h
  obtain ⟨after, hafter, h⟩ := Outcome.bind_eq_ok.mp h
  obtain ⟨-, hstore⟩ := Store.guarded_eq_ok.mp (Outcome.mapError_eq_ok.mp hafter)
  cases hstore
  cases h
  exact ⟨⟨found, hfound, rfl⟩, rfl⟩

/-- What is concluded is one row more. -/
theorem queryRows_of_conclude {rule : QueryRule} {version : Version} {store store' : Store}
    {answer : Except ScanError (List RuleMatch)} {result : QueryResult}
    (h : conclude stamp rule version store answer = .ok (result, store')) :
    store'.queryRows = store.queryRows ++ [result] := by
  rw [(of_conclude_eq_ok h).2]
  rfl

/-- Matching takes no action that could fail. -/
theorem findMatches_ne_action (bench : Bench) (source : String) (version : Version) :
    Ensures (findMatches bench source version) fun answer => ∀ e, answer ≠ .error (.action e) := by
  rw [findMatches]
  refine (RuleSet.compileLogged_yields bench.preferences source).bind_ensures ?_
  cases RuleSet.compile bench.preferences source with
  | error e => exact ensures_pure fun f hf => nomatch hf
  | ok rules =>
    dsimp only
    split_ifs
    · rw [Engine.sweepPackage]
      refine (ensures_answers _).bind fun answer _ => ?_
      cases answer with
      | error e => exact ensures_pure fun f hf => by cases e <;> exact nomatch hf
      | ok sweep => exact ensures_pure fun f hf => nomatch hf
    · exact ensures_pure fun f hf => nomatch hf

/-- Matching finds what a sweep of the package with the compiled rule finds. -/
theorem findMatches_yields {source : String} {version : Version} {rules : RuleSet} {sweep : Sweep}
    (hcompiled : RuleSet.compile bench.preferences source = .ok rules)
    (hhas : bench.files.has version.path = true)
    (hsweep : Yields (sweepArchive rules bench.files version.path bench.limits) (.ok sweep)) :
    Yields (findMatches bench source version) (.ok sweep.found) := by
  rw [findMatches]
  refine .bind (RuleSet.compileLogged_yields bench.preferences source) ?_
  rw [hcompiled]
  dsimp only
  rw [if_pos hhas, Engine.sweepPackage]
  exact .bind hsweep (yields_pure _)

/-- What is concluded is no failure of an action. -/
theorem conclude_ne_action {rule : QueryRule} {version : Version} {store : Store}
    {answer : Except ScanError (List RuleMatch)} (h : ∀ e, answer ≠ .error (.action e))
    (e : ActionError) : conclude stamp rule version store answer ≠ .error (.action e) := by
  intro hconclude
  cases answer with
  | error f =>
    cases hconclude
    exact h e rfl
  | ok found =>
    rw [conclude, Outcome.ok_bind] at hconclude
    dsimp only at hconclude
    cases hstore : store.storeQueryResult (.create stamp version.id rule.rule.id found) with
    | error f =>
      rw [hstore] at hconclude
      cases hconclude
    | ok after =>
      rw [hstore] at hconclude
      cases hconclude

/-! ### The ends of a rescan -/

variable (ask bench stamp ruleId versionId desk) in
/-- `Ends ask bench stamp ruleId versionId desk outcome after`: a rescan that finds the desk as it
is may end with the outcome and leave the desk `after`. -/
inductive Ends : RescanOutcome → Desk → Prop
  | lost {e : StoreError} : subject desk.store ruleId versionId = .error e →
      Ends (.failed (.store e)) (desk.counting Metrics.queryFailures)
  | stopped {rule : QueryRule} {version : Version} {answer : Except ScanError (List RuleMatch)}
      {e : ScanError} :
      subject desk.store ruleId versionId = .ok (rule, version) →
      Answers (findMatches bench (rule.rule.definition.getD "") version) answer →
      conclude stamp rule version desk.store answer = .error e →
      Ends (.failed e) ((desk.timed .yara).counting Metrics.queryFailures)
  | quiet {rule : QueryRule} {version : Version} {answer : Except ScanError (List RuleMatch)}
      {result : QueryResult} {store : Store} :
      subject desk.store ruleId versionId = .ok (rule, version) →
      Answers (findMatches bench (rule.rule.definition.getD "") version) answer →
      conclude stamp rule version desk.store answer = .ok (result, store) →
      result.found = [] →
      Ends (.stored result) ({ desk.timed .yara with store }.counting Metrics.querySuccesses)
  | taken {rule : QueryRule} {version : Version} {answer : Except ScanError (List RuleMatch)}
      {result : QueryResult} {store : Store} {dispatcher : Dispatcher} :
      subject desk.store ruleId versionId = .ok (rule, version) →
      Answers (findMatches bench (rule.rule.definition.getD "") version) answer →
      conclude stamp rule version desk.store answer = .ok (result, store) →
      result.found ≠ [] →
      Answers (ask { desk.timed .yara with store } rule.action version) (.ok (), dispatcher) →
      Ends (.stored result)
        ({ desk.timed .yara with store, dispatcher }.counting Metrics.querySuccesses)
  | untaken {rule : QueryRule} {version : Version} {answer : Except ScanError (List RuleMatch)}
      {result : QueryResult} {store : Store} {e : ActionError} {dispatcher : Dispatcher} :
      subject desk.store ruleId versionId = .ok (rule, version) →
      Answers (findMatches bench (rule.rule.definition.getD "") version) answer →
      conclude stamp rule version desk.store answer = .ok (result, store) →
      result.found ≠ [] →
      Answers (ask { desk.timed .yara with store } rule.action version) (.error e, dispatcher) →
      Ends (.failed (.action e))
        ({ desk.timed .yara with store, dispatcher }.counting Metrics.queryFailures)

/-- What a rescan has come to before it is counted, told by the end that it comes to. -/
def Reaches (ask : Ask) (bench : Bench) (stamp : Stamp) (ruleId versionId : Nat) (desk : Desk)
    (reached : Except ScanError QueryResult × Desk) : Prop :=
  match reached with
  | (.ok result, after) => Ends ask bench stamp ruleId versionId desk (.stored result)
      (after.counting Metrics.querySuccesses)
  | (.error e, after) => Ends ask bench stamp ruleId versionId desk (.failed e)
      (after.counting Metrics.queryFailures)

private theorem settle_ensures {rule : QueryRule} {version : Version} {found : List RuleMatch}
    (hsubject : subject desk.store ruleId versionId = .ok (rule, version))
    (hfound : Answers (findMatches bench (rule.rule.definition.getD "") version) (.ok found)) :
    Ensures (settle ask stamp rule version found (desk.timed .yara))
      (Reaches ask bench stamp ruleId versionId desk) := by
  have hconclude := conclude.eq_def stamp rule version desk.store (.ok found)
  rw [Outcome.ok_bind] at hconclude
  rw [settle]
  dsimp only [Desk.store_timed] at hconclude ⊢
  cases hstore : desk.store.storeQueryResult (.create stamp version.id rule.rule.id found) with
  | error e =>
    rw [hstore] at hconclude
    exact ensures_pure (.stopped hsubject hfound hconclude)
  | ok store =>
    rw [hstore] at hconclude
    refine .after ?_
    rw [followUp]
    split_ifs with hmatches
    · -- what the follow-up answers becomes the answer of the rescan, with the result in its place
      refine Ensures.bind (P := fun reached => Reaches ask bench stamp ruleId versionId desk
        (reached.1.map fun _ => QueryResult.create stamp version.id rule.rule.id found,
          reached.2)) ?_ fun _ h => ensures_pure h
      refine (ensures_answers _).bind fun answer hanswer => ?_
      have hne := QueryResult.hasMatches_iff.mp hmatches
      rcases answer with ⟨e | _, dispatcher⟩
      · exact ensures_pure (.untaken hsubject hfound hconclude hne hanswer)
      · exact .after (ensures_pure (.taken hsubject hfound hconclude hne hanswer))
    · rw [QueryResult.hasMatches_iff, not_not] at hmatches
      exact ensures_pure (.quiet hsubject hfound hconclude hmatches)

theorem execute_ensures (ask : Ask) (bench : Bench) (stamp : Stamp) (ruleId versionId : Nat)
    (desk : Desk) :
    Ensures (execute ask bench stamp ruleId versionId desk)
      (Reaches ask bench stamp ruleId versionId desk) := by
  have hsubject := subject.eq_def desk.store ruleId versionId
  rw [execute]
  cases hrule : desk.store.queryRule ruleId with
  | error e =>
    rw [hrule] at hsubject
    exact ensures_pure (.lost hsubject)
  | ok rule =>
    cases hversion : desk.store.version versionId with
    | error e =>
      rw [hrule, hversion] at hsubject
      exact ensures_pure (.lost hsubject)
    | ok version =>
      rw [hrule, hversion] at hsubject
      refine (ensures_answers _).bind fun answer hanswer => ?_
      refine (Metrics.timeLogged_yields _ _).bind_ensures ?_
      cases answer with
      | error e => exact ensures_pure (.stopped hsubject hanswer rfl)
      | ok found => exact settle_ensures hsubject hanswer

/-- **How rescans end.** From every journal, a rescan ends in one of the five ways. -/
theorem runAsking_ensures (ask : Ask) (bench : Bench) (stamp : Stamp) (ruleId versionId : Nat)
    (desk : Desk) :
    Ensures (runAsking ask bench stamp ruleId versionId desk) fun reached =>
      Ends ask bench stamp ruleId versionId desk reached.1 reached.2 := by
  refine .withScope _ (.after ?_)
  refine (execute_ensures ask bench stamp ruleId versionId desk).bind fun reached hreached => ?_
  rcases reached with ⟨e | result, after⟩
  · exact (Metrics.countLogged_yields _ _).bind_ensures (.after (ensures_pure hreached))
  · exact (Metrics.countLogged_yields _ _).bind_ensures (ensures_pure hreached)

/-- **A rescan that finds something.** The row is stored, the action is asked for, and the rescan
ends as that is answered. -/
theorem runAsking_yields_of_found {rule : QueryRule} {version : Version} {found : List RuleMatch}
    {answer : Except ActionError Unit} {dispatcher : Dispatcher}
    (hsubject : subject desk.store ruleId versionId = .ok (rule, version))
    (hfound : Yields (findMatches bench (rule.rule.definition.getD "") version) (.ok found))
    (hne : found ≠ []) (hopen : desk.store.outage? .createQueryResult = none) :
    let row := QueryResult.create stamp versionId ruleId found
    let there := { desk.timed .yara with store := desk.store.createQueryResult row }
    Yields (ask there rule.action version) (answer, dispatcher) →
    Yields (runAsking ask bench stamp ruleId versionId desk)
      (match answer with
        | .ok () =>
          (.stored row, { there with dispatcher }.counting Metrics.querySuccesses)
        | .error e =>
          (.failed (.action e), { there with dispatcher }.counting Metrics.queryFailures)) := by
  intro row there hasked
  obtain ⟨hrule, hversion, hruleId, hversionId⟩ := subject_eq_ok hsubject
  have hstored : desk.store.storeQueryResult row = .ok (desk.store.createQueryResult row) :=
    Store.guarded_eq_ok.mpr ⟨hopen, rfl⟩
  have hfollowed : Yields (followUp ask rule version row there)
      (answer.mapError .action, { there with dispatcher }) := by
    rw [followUp, if_pos (QueryResult.hasMatches_iff.mpr hne)]
    refine .bind hasked ?_
    cases answer with
    | error e => exact yields_pure _
    | ok _ => exact .after (yields_pure _)
  have hexecuted : Yields (execute ask bench stamp ruleId versionId desk)
      ((answer.mapError .action).map fun _ => row, { there with dispatcher }) := by
    rw [execute, hrule]
    dsimp only
    rw [hversion]
    refine .bind hfound (.bind (Metrics.timeLogged_yields _ _) ?_)
    dsimp only
    rw [settle, hruleId, hversionId]
    dsimp only
    rw [hstored]
    exact .after (.bind hfollowed (yields_pure _))
  refine Ensures.withScope (P := (· = _)) _ (.after (hexecuted.bind_ensures ?_))
  cases answer with
  | error e => exact (Metrics.countLogged_yields _ _).bind_ensures (.after (ensures_pure rfl))
  | ok _ => exact (Metrics.countLogged_yields _ _).bind_ensures (ensures_pure rfl)

/-! ### When an action is asked for -/

/-- `Due ruleId versionId desk there action version`: the action is the one of the rule, the version
is the one in question, and there is the desk with just one row more, which is about this rule and
this version and has matches. -/
def Due (ruleId versionId : Nat) (desk there : Desk) (action : RuleAction) (version : Version) :
    Prop :=
  ∃ rule row, desk.store.queryRule ruleId = .ok rule ∧ rule.action = action ∧
    desk.store.version versionId = .ok version ∧
    row.queryRule = ruleId ∧ row.version = versionId ∧ row.found ≠ [] ∧
    there.store = desk.store.createQueryResult row ∧ there.dispatcher = desk.dispatcher

/-- **Actions come after the row.** Those who are asked for actions make no difference to a rescan
unless they do when asked for the action of the rule on the version, at a desk where the row with
the matches has been stored. -/
theorem runAsking_congr
    (h : ∀ there action version, Due ruleId versionId desk there action version →
      ask there action version = ask' there action version) :
    runAsking ask bench stamp ruleId versionId desk =
      runAsking ask' bench stamp ruleId versionId desk := by
  suffices hexecute : execute ask bench stamp ruleId versionId desk =
      execute ask' bench stamp ruleId versionId desk by
    rw [runAsking, runAsking, hexecute]
  rw [execute, execute]
  cases hrule : desk.store.queryRule ruleId with
  | error e => rfl
  | ok rule =>
    cases hversion : desk.store.version versionId with
    | error e => rfl
    | ok version =>
      refine bind_congr fun answer => bind_congr fun metrics => ?_
      cases answer with
      | error e => rfl
      | ok found =>
        have hids : subject desk.store ruleId versionId = .ok (rule, version) := by
          rw [subject, hrule, hversion]
          rfl
        obtain ⟨-, -, hruleId, hversionId⟩ := subject_eq_ok hids
        dsimp only
        rw [settle, settle]
        dsimp only
        cases hstore : desk.store.storeQueryResult
            (.create stamp version.id rule.rule.id found) with
        | error e => rfl
        | ok store =>
          refine bind_congr fun _ => ?_
          rw [followUp, followUp]
          split_ifs with hmatches
          · -- the one place where somebody is asked, and the row has just been stored
            obtain ⟨-, hcreated⟩ := Store.guarded_eq_ok.mp hstore
            cases hcreated
            have hasked := h { desk with metrics, store := desk.store.createQueryResult _ }
              rule.action version ⟨rule, _, hrule, rfl, hversion, hruleId, hversionId,
                QueryResult.hasMatches_iff.mp hmatches, rfl, rfl⟩
            rw [hasked]
          · rfl

end Rescan

end PackageScan
