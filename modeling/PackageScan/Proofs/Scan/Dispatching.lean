import PackageScan.Proofs.Archive.Sweeping
import PackageScan.Proofs.RuleSet.Deciding
import PackageScan.Proofs.Scan.Rescanning

/-!
# Each row with matches is followed by one action

In a history of rescans, with any upkeep of the store between them, whoever is asked for actions is
asked once for each row with matches, and for nothing else (`Rescan.Dispatches`). Each rescan may
ask somebody else, who may answer and log at will; only the attempts are kept faithfully
(`Rescan.recording`), which the dispatcher of a desk does by itself
(`Rescan.recording_askDispatcher`).

A rescan stores a row or not and asks or not (`Rescan.Turn.Leaves`): a row without matches is stored
quietly, a row with matches comes with one attempt, and if that one is refused, the rescan has
failed with its row in the store. Any other failure leaves neither a row nor an attempt.
-/

namespace PackageScan

open Logged

namespace Rescan

variable {ask : Ask} {bench : Bench} {stamp : Stamp} {ruleId versionId : Nat} {desk after : Desk}
variable {outcome : RescanOutcome}

/-! ### Keeping the attempts -/

/-- Asks, and keeps the attempt behind those that are there. -/
def recording (ask : Ask) : Ask := fun desk action version => do
  let (answer, dispatcher) ← ask desk action version
  let attempt : DispatchAttempt := ⟨action, version.id, answer.isOk⟩
  return (answer, { dispatcher with attempts := desk.dispatcher.attempts ++ [attempt] })

/-- The dispatcher of a desk keeps the attempts by itself. -/
theorem recording_askDispatcher : recording askDispatcher = askDispatcher := by
  funext desk action version
  rw [recording, askDispatcher, Dispatcher.dispatch, Dispatcher.step]
  cases houtage : desk.dispatcher.outage <;> rfl

private theorem attempts_of_recording {action : RuleAction} {version : Version}
    {answer : Except ActionError Unit} {dispatcher : Dispatcher}
    (h : Answers (recording ask desk action version) (answer, dispatcher)) :
    dispatcher.attempts = desk.dispatcher.attempts ++ [⟨action, version.id, answer.isOk⟩] := by
  obtain ⟨j, hj⟩ := h
  obtain ⟨rfl, rfl⟩ := Prod.mk.inj hj
  rfl

/-! ### Histories of rescans -/

/-- What matching the rule with the version may find. -/
def Finds (bench : Bench) (ruleId versionId : Nat) (desk : Desk) (found : List RuleMatch) : Prop :=
  ∃ rule version, desk.store.queryRule ruleId = .ok rule ∧
    desk.store.version versionId = .ok version ∧
    Answers (findMatches bench (rule.rule.definition.getD "") version) (.ok found)

/-- A step of a history of rescans. -/
inductive Step where
  /-- A change to the store from outside. -/
  | upkeep (change : Store.Upkeep Store.queryRows)
  /-- A rescan, and whom it asks for actions. -/
  | rescan (ask : Ask) (bench : Bench) (stamp : Stamp) (ruleId versionId : Nat)

/-- What is remembered of a rescan. -/
structure Turn where
  /-- What rules and packages were taken from. -/
  bench : Bench
  /-- The rule that was to be run. -/
  ruleId : Nat
  /-- The version to run it on. -/
  versionId : Nat
  /-- The desk when the rescan began. -/
  before : Desk
  /-- The desk when it was over. -/
  after : Desk
  /-- How it has ended. -/
  outcome : RescanOutcome

/-- Takes a step, and remembers it if it is a rescan. -/
def Step.take : Step → Desk → Logged (List Turn × Desk)
  | .upkeep change, desk => return ([], { desk with store := change.apply desk.store })
  | .rescan ask bench stamp ruleId versionId, desk => do
    let (outcome, after) ← runAsking (recording ask) bench stamp ruleId versionId desk
    return ([⟨bench, ruleId, versionId, desk, after, outcome⟩], after)

namespace Turn

/-- The rows that the rescan has added. -/
def rows (t : Turn) : List QueryResult :=
  t.after.store.queryRows.drop t.before.store.queryRows.length

/-- The attempts that the rescan has added. -/
def calls (t : Turn) : List DispatchAttempt :=
  t.after.dispatcher.attempts.drop t.before.dispatcher.attempts.length

/-- The action of the rule that was to be run. -/
def action? (t : Turn) : Option RuleAction :=
  (t.before.store.queryRule t.ruleId).toOption.map QueryRule.action

/-- Has the rescan ended with a result? -/
def isStored (t : Turn) : Bool :=
  match t.outcome with
  | .stored _ => true
  | .failed _ => false

/-- Has the rescan failed since an action was not taken? -/
def isUnheeded (t : Turn) : Bool :=
  match t.outcome with
  | .failed (.action _) => true
  | .failed _ | .stored _ => false

/-- What a rescan leaves: rows about its rule and its version with what was found, an attempt for
each row with matches, and one count more. -/
structure Leaves (t : Turn) (rows : List QueryResult) (calls : List DispatchAttempt) : Prop where
  rows_eq : t.after.store.queryRows = t.before.store.queryRows ++ rows
  calls_eq : t.after.dispatcher.attempts = t.before.dispatcher.attempts ++ calls
  about : ∀ row ∈ rows, row.version = t.versionId ∧ row.queryRule = t.ruleId ∧
    Finds t.bench t.ruleId t.versionId t.before row.found
  called : calls.map (fun a => (some a.action, a.version)) =
    (rows.filter fun row => row.found ≠ []).map fun row => (t.action?, row.version)
  length_rows : rows.length = (if t.isStored then 1 else 0) + if t.isUnheeded then 1 else 0
  unheeded : t.isUnheeded = calls.any fun a => !a.taken
  successes : t.after.metrics.countOf Metrics.querySuccesses =
    t.before.metrics.countOf Metrics.querySuccesses + if t.isStored then 1 else 0
  failures : t.after.metrics.countOf Metrics.queryFailures =
    t.before.metrics.countOf Metrics.queryFailures + if t.isStored then 0 else 1

/-- What a rescan leaves is what it has added. -/
theorem Leaves.added {t : Turn} {rs : List QueryResult} {cs : List DispatchAttempt}
    (h : t.Leaves rs cs) : t.Leaves t.rows t.calls := by
  have hrows : t.rows = rs := by rw [Turn.rows, h.rows_eq, List.drop_left]
  have hcalls : t.calls = cs := by rw [Turn.calls, h.calls_eq, List.drop_left]
  rw [hrows, hcalls]
  exact h

end Turn

private theorem Step.upkeep_yields (change : Store.Upkeep Store.queryRows) (desk : Desk) :
    Yields ((Step.upkeep change).take desk) ([], { desk with store := change.apply desk.store }) :=
  yields_pure _

private theorem Step.rescan_yields
    (h : Yields (runAsking (recording ask) bench stamp ruleId versionId desk) (outcome, after)) :
    Yields ((Step.rescan ask bench stamp ruleId versionId).take desk)
      ([⟨bench, ruleId, versionId, desk, after, outcome⟩], after) :=
  .bind h (yields_pure _)

/-! ### One step -/

private theorem countOf_counting_successes (desk : Desk) :
    (desk.counting Metrics.querySuccesses).metrics.countOf Metrics.querySuccesses =
        desk.metrics.countOf Metrics.querySuccesses + 1 ∧
      (desk.counting Metrics.querySuccesses).metrics.countOf Metrics.queryFailures =
        desk.metrics.countOf Metrics.queryFailures := by
  have hne : Metrics.queryFailures ≠ Metrics.querySuccesses := by decide
  rw [Desk.counting, Metrics.countOf_count, Metrics.countOf_count, if_pos rfl, if_neg hne]
  exact ⟨rfl, rfl⟩

private theorem countOf_counting_failures (desk : Desk) :
    (desk.counting Metrics.queryFailures).metrics.countOf Metrics.querySuccesses =
        desk.metrics.countOf Metrics.querySuccesses ∧
      (desk.counting Metrics.queryFailures).metrics.countOf Metrics.queryFailures =
        desk.metrics.countOf Metrics.queryFailures + 1 := by
  have hne : Metrics.querySuccesses ≠ Metrics.queryFailures := by decide
  rw [Desk.counting, Metrics.countOf_count, Metrics.countOf_count, if_pos rfl, if_neg hne]
  exact ⟨rfl, rfl⟩

/-- A failure that is not one of an action leaves neither rows nor attempts. -/
private theorem leaves_of_stopped {e : ScanError} {there : Desk} (he : ∀ f, e ≠ .action f)
    (hstore : there.store = desk.store) (hdispatcher : there.dispatcher = desk.dispatcher)
    (hcounts : ∀ name, there.metrics.countOf name = desk.metrics.countOf name) :
    Turn.Leaves ⟨bench, ruleId, versionId, desk, there.counting Metrics.queryFailures, .failed e⟩
      [] [] := by
  obtain ⟨hsuccesses, hfailures⟩ := countOf_counting_failures there
  have hunheeded : Turn.isUnheeded
      ⟨bench, ruleId, versionId, desk, there.counting Metrics.queryFailures, .failed e⟩ =
        false := by
    cases e with
    | action f => exact absurd rfl (he f)
    | _ => rfl
  refine ⟨?_, ?_, List.forall_mem_nil _, rfl, ?_, hunheeded, ?_, ?_⟩
  · rw [List.append_nil]
    exact congrArg Store.queryRows hstore
  · rw [List.append_nil]
    exact congrArg Dispatcher.attempts hdispatcher
  · rw [hunheeded]
    rfl
  · exact hsuccesses.trans (hcounts _)
  · exact hfailures.trans (congrArg (· + 1) (hcounts _))

/-- The row that is stored is about the rule and the version, and has what was found. -/
private theorem about_of_conclude {rule : QueryRule} {version : Version} {store : Store}
    {answer : Except ScanError (List RuleMatch)} {result : QueryResult}
    (hsubject : subject desk.store ruleId versionId = .ok (rule, version))
    (hfound : Answers (findMatches bench (rule.rule.definition.getD "") version) answer)
    (hconclude : conclude stamp rule version desk.store answer = .ok (result, store)) :
    result.version = versionId ∧ result.queryRule = ruleId ∧
      Finds bench ruleId versionId desk result.found := by
  obtain ⟨hrule, hversion, hruleId, hversionId⟩ := subject_eq_ok hsubject
  obtain ⟨⟨found, rfl, rfl⟩, -⟩ := of_conclude_eq_ok hconclude
  exact ⟨hversionId, hruleId, rule, version, hrule, hversion, hfound⟩

/-- A row with matches calls for the action of the rule on the version. -/
private theorem called_of_found {rule : QueryRule} {version : Version} {result : QueryResult}
    (hsubject : subject desk.store ruleId versionId = .ok (rule, version))
    (hresult : result.version = versionId) (hfound : result.found ≠ []) :
    [(some rule.action, version.id)] = ([result].filter fun row => row.found ≠ []).map
      fun row => (Turn.action? ⟨bench, ruleId, versionId, desk, after, outcome⟩, row.version) := by
  obtain ⟨hlookup, -, -, hversion⟩ := subject_eq_ok hsubject
  rw [List.filter_singleton, decide_eq_true hfound, Turn.action?, hlookup, hversion, ← hresult]
  rfl

/-- **One rescan.** However a rescan ends, its row and its attempt go together. -/
theorem Ends.leaves
    (h : Ends (recording ask) bench stamp ruleId versionId desk outcome after) :
    ∃ rows calls, Turn.Leaves ⟨bench, ruleId, versionId, desk, after, outcome⟩ rows calls := by
  cases h with
  | lost => exact ⟨[], [], leaves_of_stopped (fun f hf => nomatch hf) rfl rfl fun _ => rfl⟩
  | @stopped rule version answer e _ hfound hconclude =>
    have hanswer : ∀ f, answer ≠ .error (.action f) := by
      obtain ⟨j, rfl⟩ := hfound
      exact findMatches_ne_action _ _ _ j
    refine ⟨[], [], leaves_of_stopped (fun f hf => ?_) rfl rfl fun _ => rfl⟩
    exact conclude_ne_action hanswer f (hf ▸ hconclude)
  | @quiet rule version answer result store hsubject hanswer hconclude hnone =>
    have hrows := queryRows_of_conclude hconclude
    have habout := about_of_conclude hsubject hanswer hconclude
    obtain ⟨hsuccesses, hfailures⟩ :=
      countOf_counting_successes { desk.timed .yara with store }
    refine ⟨[result], [], hrows, ?_, List.forall_mem_singleton.mpr habout, ?_, rfl, rfl,
      hsuccesses, hfailures⟩
    · exact (List.append_nil _).symm
    · rw [List.filter_singleton, decide_eq_false (not_not.mpr hnone)]
      rfl
  -- in both of these the action has been asked for, and just the answers differ
  | @taken rule version answer result store dispatcher hsubject hanswer hconclude hfound hasked =>
    have hrows := queryRows_of_conclude hconclude
    have habout := about_of_conclude hsubject hanswer hconclude
    obtain ⟨hsuccesses, hfailures⟩ :=
      countOf_counting_successes { desk.timed .yara with store, dispatcher }
    exact ⟨[result], [⟨rule.action, version.id, true⟩], hrows, attempts_of_recording hasked,
      List.forall_mem_singleton.mpr habout, called_of_found hsubject habout.1 hfound,
      rfl, rfl, hsuccesses, hfailures⟩
  | @untaken rule version answer result store e dispatcher hsubject hanswer hconclude hfound
      hasked =>
    have hrows := queryRows_of_conclude hconclude
    have habout := about_of_conclude hsubject hanswer hconclude
    obtain ⟨hsuccesses, hfailures⟩ :=
      countOf_counting_failures { desk.timed .yara with store, dispatcher }
    exact ⟨[result], [⟨rule.action, version.id, false⟩], hrows, attempts_of_recording hasked,
      List.forall_mem_singleton.mpr habout, called_of_found hsubject habout.1 hfound,
      rfl, rfl, hsuccesses, hfailures⟩

/-! ### All steps -/

/-- What holds after every history. -/
structure Kept (turns : List Turn) (desk : Desk) : Prop where
  rows_eq : desk.store.queryRows = turns.flatMap Turn.rows
  calls_eq : desk.dispatcher.attempts = turns.flatMap Turn.calls
  leaves : ∀ t ∈ turns, t.Leaves t.rows t.calls
  successes : desk.metrics.countOf Metrics.querySuccesses = turns.countP Turn.isStored
  failures : desk.metrics.countOf Metrics.queryFailures = turns.countP fun t => !t.isStored

private theorem kept_empty : Kept [] {} where
  rows_eq := rfl
  calls_eq := rfl
  leaves _ ht := nomatch ht
  successes := rfl
  failures := rfl

private theorem Kept.rescan {past : List Turn} (h : Kept past desk)
    (hend : Ends (recording ask) bench stamp ruleId versionId desk outcome after) :
    Kept (past ++ [⟨bench, ruleId, versionId, desk, after, outcome⟩]) after := by
  obtain ⟨rows, calls, hleaves⟩ := hend.leaves
  have hadded := hleaves.added
  refine ⟨?_, ?_, fun t ht => ?_, ?_, ?_⟩
  · rw [List.flatMap_append, List.flatMap_singleton, ← h.rows_eq]
    exact hadded.rows_eq
  · rw [List.flatMap_append, List.flatMap_singleton, ← h.calls_eq]
    exact hadded.calls_eq
  · rcases List.mem_append.mp ht with hpast | hlast
    · exact h.leaves t hpast
    · rw [List.mem_singleton.mp hlast]
      exact hadded
  · rw [List.countP_append, List.countP_singleton, ← h.successes]
    exact hadded.successes
  · rw [List.countP_append, List.countP_singleton, ← h.failures]
    refine hadded.failures.trans (congrArg _ ?_)
    rcases Turn.isStored ⟨bench, ruleId, versionId, desk, after, outcome⟩ <;> rfl

theorem Kept.take {past : List Turn} (h : Kept past desk) (step : Step) :
    Ensures (step.take desk) fun reached => Kept (past ++ reached.1) reached.2 := by
  cases step with
  | upkeep change =>
    refine ensures_pure ?_
    rw [List.append_nil]
    exact ⟨(change.rows_apply desk.store).trans h.rows_eq, h.calls_eq, h.leaves, h.successes,
      h.failures⟩
  | rescan ask bench stamp ruleId versionId =>
    refine (runAsking_ensures (recording ask) bench stamp ruleId versionId desk).bind
      fun reached hend => ?_
    exact ensures_pure (h.rescan hend)

/-- What the rows, the attempts and the counters say about the rescans. -/
structure Dispatches (turns : List Turn) (desk : Desk) : Prop where
  /-- The rows are those that the rescans have added. -/
  rows_eq : desk.store.queryRows = turns.flatMap Turn.rows
  /-- Each row is about the rule and the version of its rescan, and has what was found. -/
  about : ∀ t ∈ turns, ∀ row ∈ t.rows, row.version = t.versionId ∧ row.queryRule = t.ruleId ∧
    Finds t.bench t.ruleId t.versionId t.before row.found
  /-- Each row with matches has one attempt, to take the action of that rule on that version. -/
  calls_eq : desk.dispatcher.attempts.map (fun a => (some a.action, a.version)) =
    turns.flatMap fun t =>
      (t.rows.filter fun row => row.found ≠ []).map fun row => (t.action?, row.version)
  /-- Each rescan is counted as a success or as a failure. -/
  runs : desk.metrics.countOf Metrics.querySuccesses + desk.metrics.countOf Metrics.queryFailures =
    turns.length
  /-- The successes are the rescans that have ended with a result. -/
  successes : desk.metrics.countOf Metrics.querySuccesses = turns.countP Turn.isStored
  /-- There is a row for each success and for each rescan whose action was not taken. -/
  length_rows : desk.store.queryRows.length =
    desk.metrics.countOf Metrics.querySuccesses + turns.countP Turn.isUnheeded
  /-- The action of a rescan was not taken if it has been asked for in vain. -/
  unheeded : ∀ t ∈ turns, t.isUnheeded = t.calls.any fun a => !a.taken
  /-- Any other rescan that fails leaves the rows as they are. -/
  untouched : ∀ t ∈ turns, t.isStored = false → t.isUnheeded = false →
    t.after.store.queryRows = t.before.store.queryRows

private theorem length_flatMap_rows {turns : List Turn} (h : ∀ t ∈ turns, t.Leaves t.rows t.calls) :
    (turns.flatMap Turn.rows).length =
      turns.countP Turn.isStored + turns.countP Turn.isUnheeded := by
  induction turns with
  | nil => rfl
  | cons t turns ih =>
    obtain ⟨ht, hturns⟩ := List.forall_mem_cons.mp h
    rw [List.flatMap_cons, List.length_append, List.countP_cons, List.countP_cons, ih hturns,
      ht.length_rows]
    omega

private theorem map_flatMap_calls {turns : List Turn} (h : ∀ t ∈ turns, t.Leaves t.rows t.calls) :
    (turns.flatMap Turn.calls).map (fun a => (some a.action, a.version)) =
      turns.flatMap fun t =>
        (t.rows.filter fun row => row.found ≠ []).map fun row => (t.action?, row.version) := by
  rw [List.map_flatMap]
  exact List.flatMap_congr fun t ht => (h t ht).called

private theorem Kept.dispatches {turns : List Turn} (h : Kept turns desk) :
    Dispatches turns desk where
  rows_eq := h.rows_eq
  about t ht := (h.leaves t ht).about
  calls_eq := by rw [h.calls_eq, map_flatMap_calls h.leaves]
  runs := by
    rw [h.successes, h.failures, List.length_eq_countP_add_countP Turn.isStored]
    simp only [Bool.not_eq_true, Bool.decide_eq_false]
  successes := h.successes
  length_rows := by rw [h.rows_eq, h.successes, length_flatMap_rows h.leaves]
  unheeded t ht := (h.leaves t ht).unheeded
  untouched t ht hstored hunheeded := by
    have hlength := (h.leaves t ht).length_rows
    rw [hstored, hunheeded] at hlength
    rw [(h.leaves t ht).rows_eq, List.length_eq_zero_iff.mp hlength, List.append_nil]

/-- **Actions are asked for once for each row with matches.** Let any rescans be made from an empty
desk, with any upkeep of the store between them, each asking whomever it likes, who may refuse. The
attempts are then those for the rows with matches, each with the action of the rule and the version
of its rescan, and the counters tell how the rescans have ended. Whoever is asked makes a difference
only when asked for that action, on that version, with the row in the store. All of this is true of
the dispatcher of the desk in particular. -/
theorem dispatches_runAll (steps : List Step) :
    (Ensures (Desk.runAll Step.take steps {}) fun reached => Dispatches reached.1 reached.2) ∧
    (∀ ask ask' bench stamp ruleId versionId desk,
      (∀ there action version, Due ruleId versionId desk there action version →
        ask there action version = ask' there action version) →
      runAsking ask bench stamp ruleId versionId desk =
        runAsking ask' bench stamp ruleId versionId desk) ∧
    (∀ bench stamp ruleId versionId desk,
      run bench stamp ruleId versionId desk =
        runAsking (recording askDispatcher) bench stamp ruleId versionId desk) := by
  refine ⟨?_, fun ask ask' bench stamp ruleId versionId desk h => runAsking_congr h, ?_⟩
  · have hrun : Ensures (Desk.runAll Step.take steps {}) fun reached =>
        Kept ([] ++ reached.1) reached.2 :=
      Desk.runAll_ensures (fun _ _ step h => h.take step) steps kept_empty
    exact hrun.mono fun reached hreached => Kept.dispatches hreached
  · intro bench stamp ruleId versionId desk
    rw [recording_askDispatcher, run]

/-! ### A rescan that is heeded and one that is refused -/

/-- The definition of a rule that finds a string. -/
def seeking : String := "rule a \x7b strings: $x = \"ab\" condition: $x \x7d"

/-- The query rule. -/
def seeker : QueryRule := ⟨⟨1, "a", .yara, some seeking, true⟩, .flagForHumanReview⟩

/-- A version to run it on. -/
def candidate : Version := ⟨2, 3, "a.xpi"⟩

/-- Both come into the store. -/
def publishing : Store.Upkeep Store.queryRows where
  apply s := (s.addQueryRule seeker).addVersion candidate
  rows_apply _ := rfl

/-- The package of the version, with a file in which the string is found. -/
def packaged : Bench where
  files := .ofList [("a.xpi", Zip.pack [⟨"b", [97, 98], true⟩])]
  preferences := {}
  limits := {}

/-- What is found. -/
def inPackage : RuleMatch := ⟨"a", [], [("filename", "b")]⟩

/-- The row that is stored. -/
def matching : QueryResult := .create {} 2 1 [inPackage]

/-- Refuses every action. -/
def refusing : Ask := fun there action version =>
  pure (.error ⟨action, version.id, "closed"⟩, there.dispatcher)

/-- Asks the dispatcher of a desk where there is a row, and refuses elsewhere. -/
def askWithRow : Ask := fun there action version =>
  if there.store.queryRows.isEmpty then refusing there action version
  else askDispatcher there action version

/-- The desk before the rescans. -/
def published : Desk where
  store := publishing.apply {}

/-- The desk with the row stored. -/
def matched (desk : Desk) : Desk :=
  { desk.timed .yara with store := desk.store.createQueryResult matching }

/-- The desk after the dispatcher has taken the action. -/
def heeded : Desk :=
  { matched published with dispatcher := ⟨none, [⟨.flagForHumanReview, 2, true⟩]⟩ }.counting
    Metrics.querySuccesses

/-- The desk after the action has been refused the next time. -/
def refused : Desk :=
  { matched heeded with
    dispatcher :=
      ⟨none, [⟨.flagForHumanReview, 2, true⟩, ⟨.flagForHumanReview, 2, false⟩]⟩ }.counting
    Metrics.queryFailures

private theorem findMatches_packaged :
    Yields (findMatches packaged seeking candidate) (.ok [inPackage]) := by
  have hcomputed : (RuleSet.empty.extend? packaged.preferences seeking).map (fun rules =>
      ((sweepArchive rules packaged.files "a.xpi" packaged.limits).run {}).1.map Sweep.found) =
        some (.ok [inPackage]) := by decide +kernel
  obtain ⟨rules, hextended, hfound⟩ := Option.map_eq_some_iff.mp hcomputed
  obtain ⟨result, hresult⟩ :=
    exists_sweepArchive_yields rules packaged.files "a.xpi" packaged.limits
  rw [hresult {}] at hfound
  obtain ⟨sweep, rfl, hsweep⟩ := Outcome.map_eq_ok.mp hfound
  rw [← hsweep]
  exact findMatches_yields (RuleSet.compile_eq_ok_iff.mpr hextended) (by decide +kernel) hresult

private theorem runAsking_published_yields :
    Yields (runAsking (recording askDispatcher) packaged {} 1 2 published)
      (.stored matching, heeded) := by
  have hsubject : subject published.store 1 2 = .ok (seeker, candidate) := rfl
  have hanswer : Yields
      (recording askDispatcher (matched published) .flagForHumanReview candidate)
      (.ok (), heeded.dispatcher) := fun _ => rfl
  exact runAsking_yields_of_found hsubject findMatches_packaged (List.cons_ne_nil _ _) rfl hanswer

private theorem runAsking_heeded_yields :
    Yields (runAsking (recording refusing) packaged {} 1 2 heeded)
      (.failed (.action ⟨.flagForHumanReview, 2, "closed"⟩), refused) := by
  have hsubject : subject heeded.store 1 2 = .ok (seeker, candidate) := rfl
  have hanswer : Yields (recording refusing (matched heeded) .flagForHumanReview candidate)
      (.error ⟨.flagForHumanReview, 2, "closed"⟩, refused.dispatcher) := fun _ => rfl
  exact runAsking_yields_of_found hsubject findMatches_packaged (List.cons_ne_nil _ _) rfl hanswer

/-- A rescan whose action is taken, and one whose action is refused. -/
def heededAndRefused : List Step :=
  [.upkeep publishing, .rescan askDispatcher packaged {} 1 2, .rescan refusing packaged {} 1 2]

private theorem runAll_heededAndRefused :
    ((Desk.runAll Step.take heededAndRefused {}).run {}).1.2 = refused := by
  have hrun := Desk.runAll_cons_yields (Step.upkeep_yields publishing {})
    (Desk.runAll_cons_yields (Step.rescan_yields runAsking_published_yields)
      (Desk.runAll_cons_yields (Step.rescan_yields runAsking_heeded_yields)
        (Desk.runAll_nil_yields _ refused)))
  exact congrArg Prod.snd (hrun {})

/-- Both rescans find something and store it, and each of them asks once. Nobody is asked while
there is no row: one who would refuse then takes the action like any other. -/
theorem dispatches_runAll_heededAndRefused :
    let reached := ((Desk.runAll Step.take heededAndRefused {}).run {}).1
    Dispatches reached.1 reached.2 ∧
      reached.2.store.queryRows.map QueryResult.found = [[inPackage], [inPackage]] ∧
      reached.2.dispatcher.attempts =
        [⟨.flagForHumanReview, 2, true⟩, ⟨.flagForHumanReview, 2, false⟩] ∧
      reached.2.metrics.countOf Metrics.querySuccesses = 1 ∧
      reached.2.metrics.countOf Metrics.queryFailures = 1 ∧
      (∀ there action version, Due 1 2 published there action version →
        askWithRow there action version = askDispatcher there action version) ∧
      ((runAsking askWithRow packaged {} 1 2 published).run {}).1.2.dispatcher.attempts =
        [⟨.flagForHumanReview, 2, true⟩] := by
  intro reached
  obtain ⟨hdispatches, hsame, -⟩ := dispatches_runAll heededAndRefused
  have hasked : ∀ there action version, Due 1 2 published there action version →
      askWithRow there action version = askDispatcher there action version := by
    rintro there action version ⟨rule, row, -, -, -, -, -, -, hstore, -⟩
    -- the store was without rows before, so the only one is that of the rescan
    have hrows : there.store.queryRows = [row] := congrArg Store.queryRows hstore
    rw [askWithRow, hrows, List.isEmpty_cons, if_neg Bool.false_ne_true]
  have hlast : ((runAsking askWithRow packaged {} 1 2 published).run {}).1.2.dispatcher.attempts =
      [⟨.flagForHumanReview, 2, true⟩] := by
    rw [hsame askWithRow askDispatcher packaged {} 1 2 published hasked, ← recording_askDispatcher,
      runAsking_published_yields {}]
    rfl
  have hreached : reached.2 = refused := runAll_heededAndRefused
  refine ⟨hdispatches {}, ?_⟩
  rw [hreached]
  exact ⟨rfl, rfl, rfl, rfl, hasked, hlast⟩

end Rescan

end PackageScan
