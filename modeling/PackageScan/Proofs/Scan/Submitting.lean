import PackageScan.Proofs.Scan.Histories

/-!
# How a run of a scanner ends

What a run does before it invokes the scanner depends on the validation, the store and the files
alone: it is skipped, it fails, or it asks the scanner about an upload (`Submission.opening`). What
becomes of the answer depends on the store alone (`Submission.conclude`). So a run ends in one of
four ways (`Submission.Ends`), each with what it leaves on the desk, and nothing else has to be
known about a run (`Submission.run_ensures`).

Whether a run asks its scanner is no matter of words. It does exactly if another scanner of the same
kind in its place could make the run end differently (`Submission.asks_iff`).
-/

namespace PackageScan

open Logged

namespace Desk

/-- The desk after a failure of a scanner has been counted. -/
def countingFailure (desk : Desk) (kind : ScannerKind) : Desk :=
  { desk with metrics := desk.metrics.count (Metrics.failures kind) }

/-- The desk after a result has been stored and counted. -/
def countingResult (desk : Desk) (result : ScanResult) (store : Store) : Desk :=
  { desk with store, metrics := desk.metrics.countEach result.counters }

variable (desk : Desk) (kind : ScannerKind) (result : ScanResult) (store : Store)

@[simp] theorem store_countingFailure : (desk.countingFailure kind).store = desk.store := rfl

@[simp] theorem store_countingResult : (desk.countingResult result store).store = store := rfl

theorem countOf_countingFailure (t : Metrics.Tally) :
    (desk.countingFailure kind).metrics.countOf t.name =
      desk.metrics.countOf t.name + if t = .failure kind then 1 else 0 :=
  Metrics.countOf_count_tally desk.metrics (.failure kind) t

@[simp] theorem timingsOf_countingFailure (name : String) :
    (desk.countingFailure kind).metrics.timingsOf name = desk.metrics.timingsOf name :=
  rfl

@[simp] theorem timingsOf_countingResult (name : String) :
    (desk.countingResult result store).metrics.timingsOf name = desk.metrics.timingsOf name :=
  Metrics.timingsOf_countEach _ _

end Desk

namespace Submission

variable {engine : Engine} {files : Files} {stamp : Stamp} {validation : Json} {id : Nat}
variable {desk : Desk} {kind : ScannerKind}

/-! ### Before and after the scanner -/

/-- What a run has come to when it could invoke the scanner. -/
inductive Opening where
  /-- The package is no extension. -/
  | skip
  /-- The scanner cannot be invoked. -/
  | stop (e : ScanError)
  /-- The scanner is invoked. -/
  | ask (upload : Upload) (snapshot : Snapshot)

/-- What a run comes to with an upload that has passed the gate. -/
def behindGate (kind : ScannerKind) (files : Files) (upload : Upload) (store : Store) : Opening :=
  if files.has upload.path then
    match store.activeRules kind with
    | .error e => .stop (.store e)
    | .ok snapshot => .ask upload snapshot
  else .stop (.targetNotFound upload.path)

/-- What a run of a scanner comes to before it invokes the scanner. -/
def opening (kind : ScannerKind) (files : Files) (validation : Json) (id : Nat) (store : Store) :
    Opening :=
  if validation.isExtension? = some false then .skip
  else
    match store.upload id with
    | .error e => .stop (.store e)
    | .ok upload =>
      if validation.isExtension?.isNone && !upload.isExtension then .skip
      else behindGate kind files upload store

/-- How a run ends that does not invoke the scanner. -/
def Opening.outcome? : Opening → Option ScanOutcome
  | skip => some .skipped
  | stop e => some (.failed e)
  | ask _ _ => none

/-- Is the scanner invoked? -/
def asks (kind : ScannerKind) (files : Files) (validation : Json) (id : Nat) (store : Store) :
    Bool :=
  (opening kind files validation id store).outcome?.isNone

/-- Behind the gate no run is skipped. -/
private theorem behindGate_ne_skip {upload : Upload} {store : Store} :
    behindGate kind files upload store ≠ .skip := by
  rw [behindGate]
  split_ifs
  · cases store.activeRules kind <;> exact fun h => nomatch h
  · exact fun h => nomatch h

/-- A run is skipped if validation says that the package is no extension, or says nothing and the
upload says so itself. -/
theorem opening_eq_skip {store : Store} :
    opening kind files validation id store = .skip ↔
      validation.isExtension? = some false ∨
        validation.isExtension? = none ∧
          ∃ upload, store.upload id = .ok upload ∧ upload.isExtension = false := by
  rw [opening]
  rcases validation.isExtension? with _ | _ | _
  · cases store.upload id with
    | error e => simp
    | ok upload => cases hflag : upload.isExtension <;> simp [hflag, behindGate_ne_skip]
  · simp
  · cases store.upload id <;> simp [behindGate_ne_skip]

/-- The result and the store that an answer leads to. -/
def conclude (stamp : Stamp) (kind : ScannerKind) (id : Nat) (store : Store)
    (answer : Except ScanError Payload) : Except ScanError (ScanResult × Store) := do
  let payload ← answer
  let known ← (store.rules kind).mapError .store
  let result := ScanResult.create stamp id kind payload known
  let after ← (store.storeScanResult result).mapError .store
  return (result, after)

/-! ### The ends of a run -/

variable (engine files stamp validation id desk) in
/-- `Ends engine files stamp validation id desk outcome after`: a run that finds the desk as it is
may end with the outcome and leave the desk `after`. -/
inductive Ends : ScanOutcome → Desk → Prop
  | skipped : opening engine.kind files validation id desk.store = .skip → Ends .skipped desk
  | stopped {e : ScanError} : opening engine.kind files validation id desk.store = .stop e →
      Ends (.failed e) (desk.countingFailure engine.kind)
  | failed {upload : Upload} {snapshot : Snapshot} {answer : Except ScanError Payload}
      {e : ScanError} : opening engine.kind files validation id desk.store = .ask upload snapshot →
      Answers (engine.run upload snapshot) answer →
      conclude stamp engine.kind id desk.store answer = .error e →
      Ends (.failed e) ((desk.timed engine.kind).countingFailure engine.kind)
  | stored {upload : Upload} {snapshot : Snapshot} {answer : Except ScanError Payload}
      {result : ScanResult} {store : Store} :
      opening engine.kind files validation id desk.store = .ask upload snapshot →
      Answers (engine.run upload snapshot) answer →
      conclude stamp engine.kind id desk.store answer = .ok (result, store) →
      Ends (.stored result) ((desk.timed engine.kind).countingResult result store)

/-! ### What the stages yield -/

private theorem fail_yields (kind : ScannerKind) (e : ScanError) (desk : Desk) :
    Yields (fail kind e desk) (.failed e, desk.countingFailure kind) :=
  .bind (Metrics.countLogged_yields _ _) (.after (yields_pure _))

private theorem succeed_yields (result : ScanResult) (desk : Desk) :
    Yields (succeed result desk) (.stored result, desk) :=
  .after (yields_pure _)

/-- Storing and counting a payload yields what is concluded from it. -/
private theorem settle_yields (stamp : Stamp) (kind : ScannerKind) (id : Nat) (payload : Payload)
    (desk : Desk) :
    Yields (settle stamp kind id payload desk)
      (match conclude stamp kind id desk.store (.ok payload) with
      | .error e => (.error e, desk)
      | .ok (result, store) => (.ok result, desk.countingResult result store)) := by
  rw [settle, conclude, Outcome.ok_bind]
  rcases desk.store.rules kind with e | known
  · exact yields_pure _
  rw [Outcome.mapError_ok, Outcome.ok_bind]
  dsimp only
  rcases desk.store.storeScanResult (.create stamp id kind payload known) with e | store
  · exact yields_pure _
  · exact .bind (Metrics.countAll_yields _ _) (yields_pure _)

/-- With an upload that has passed the gate, a run either cannot invoke the scanner and leaves the
desk alone, or comes to what is concluded from an answer of the scanner. -/
theorem execute_ensures (engine : Engine) (files : Files) (stamp : Stamp) (upload : Upload)
    (id : Nat) (desk : Desk) :
    Ensures (execute engine files stamp upload id desk) fun reached =>
      match behindGate engine.kind files upload desk.store with
      | .skip => False
      | .stop e => reached = (.error e, desk)
      | .ask upload snapshot => ∃ answer, Answers (engine.run upload snapshot) answer ∧
        reached = match conclude stamp engine.kind id desk.store answer with
          | .error e => (.error e, desk.timed engine.kind)
          | .ok (result, store) =>
            (.ok result, (desk.timed engine.kind).countingResult result store) := by
  rw [execute, behindGate]
  refine .after ?_
  split_ifs with hpath
  · cases desk.store.activeRules engine.kind with
    | error e => exact ensures_pure rfl
    | ok snapshot =>
      refine (ensures_answers (engine.run upload snapshot)).bind fun answer hanswer => ?_
      refine (Metrics.timeLogged_yields _ _).bind_ensures ?_
      cases answer with
      | error e => exact ensures_pure ⟨.error e, hanswer, rfl⟩
      | ok payload => exact (settle_yields _ _ _ _ _).ensures ⟨.ok payload, hanswer, rfl⟩
  · exact ensures_pure rfl

/-! ### Runs -/

private theorem proceed_ensures (engine : Engine) (files : Files) (stamp : Stamp)
    (validation : Json)
    (id : Nat) (desk : Desk) :
    Ensures (proceed engine files stamp validation id desk) fun reached =>
      Ends engine files stamp validation id desk reached.1 reached.2 := by
  -- what the run comes to is found along the same tests that the run makes
  have hopening := opening.eq_def engine.kind files validation id desk.store
  rw [proceed]
  split_ifs at hopening ⊢ with hgate
  · exact .after (ensures_pure (.skipped hopening))
  cases hupload : desk.store.upload id with
  | error e =>
    rw [hupload] at hopening
    exact (fail_yields _ _ _).ensures (.stopped hopening)
  | ok upload =>
    rw [hupload] at hopening
    dsimp only at hopening ⊢
    split_ifs at hopening ⊢ with hflag
    · exact .after (ensures_pure (.skipped hopening))
    refine (execute_ensures engine files stamp upload id desk).bind fun reached hreached => ?_
    cases hbehind : behindGate engine.kind files upload desk.store with
    | skip => exact absurd hbehind behindGate_ne_skip
    | stop e =>
      rw [hbehind] at hreached hopening
      rw [show reached = _ from hreached]
      exact (fail_yields _ _ _).ensures (.stopped hopening)
    | ask upload snapshot =>
      rw [hbehind] at hreached hopening
      obtain ⟨answer, hanswer, rfl⟩ := hreached
      cases hend : conclude stamp engine.kind id desk.store answer with
      | error e => exact (fail_yields _ _ _).ensures (.failed hopening hanswer hend)
      | ok reached => exact (succeed_yields _ _).ensures (.stored hopening hanswer hend)

/-- **How runs end.** From every journal, a run ends in one of the four ways. -/
theorem run_ensures (engine : Engine) (files : Files) (stamp : Stamp) (validation : Json)
    (id : Nat) (desk : Desk) :
    Ensures (run engine files stamp validation id desk) fun reached =>
      Ends engine files stamp validation id desk reached.1 reached.2 :=
  .withScope _ (.after (proceed_ensures engine files stamp validation id desk))

/-! ### Invoking the scanner -/

/-- A scanner that refuses whatever it is asked. -/
def refusing (kind : ScannerKind) (e : ScanError) : Engine where
  kind := kind
  run _ _ := pure (.error e)

private theorem Ends.eq_of_outcome? {outcome o : ScanOutcome} {after : Desk}
    (h : Ends engine files stamp validation id desk outcome after)
    (ho : (opening engine.kind files validation id desk.store).outcome? = some o) :
    outcome = o := by
  cases h with
  | skipped hopening | stopped hopening =>
    rw [hopening] at ho
    exact Option.some.inj ho
  | failed hopening | stored hopening =>
    rw [hopening] at ho
    exact nomatch ho

/-- A run that asks a scanner that refuses ends with the reason for that. -/
private theorem Ends.eq_failed_of_refusing {e : ScanError} {outcome : ScanOutcome} {after : Desk}
    (h : Ends (refusing kind e) files stamp validation id desk outcome after)
    (hasks : asks kind files validation id desk.store = true) : outcome = .failed e := by
  rw [asks] at hasks
  cases h with
  | skipped hopening | stopped hopening =>
    rw [show opening kind files validation id desk.store = _ from hopening] at hasks
    exact nomatch hasks
  | failed _ hanswer hend =>
    obtain ⟨_, rfl⟩ := hanswer
    cases hend
    rfl
  | stored _ hanswer hend =>
    obtain ⟨_, rfl⟩ := hanswer
    exact nomatch hend

/-- **To ask is to depend on the answer.** A run invokes its scanner exactly if another scanner of
the same kind could make it end differently. -/
theorem asks_iff (engine : Engine) (files : Files) (stamp : Stamp) (validation : Json) (id : Nat)
    (desk : Desk) :
    asks engine.kind files validation id desk.store = true ↔
      ∃ (other : Engine) (j : Journal), other.kind = engine.kind ∧
        ((run other files stamp validation id desk).run j).1.1 ≠
          ((run engine files stamp validation id desk).run j).1.1 := by
  constructor
  · intro hasks
    have hrefused (e : ScanError) :
        ((run (refusing engine.kind e) files stamp validation id desk).run {}).1.1 = .failed e :=
      (run_ensures (refusing engine.kind e) files stamp validation id desk {}).eq_failed_of_refusing
        hasks
    -- of two scanners that refuse for different reasons one at least ends the run differently
    by_contra hsame
    have heq (e : ScanError) :
        ((run engine files stamp validation id desk).run {}).1.1 = .failed e := by
      by_contra hne
      exact hsame ⟨refusing engine.kind e, {}, rfl, fun h => hne (h ▸ hrefused e)⟩
    have habsurd := (heq (.targetNotFound "a")).symm.trans (heq (.targetNotFound "b"))
    exact absurd habsurd (by simp)
  · rintro ⟨other, j, hkind, hne⟩
    rw [asks, Option.isNone_iff_eq_none]
    by_contra hsome
    obtain ⟨o, ho⟩ := Option.ne_none_iff_exists'.mp hsome
    have hother := (run_ensures other files stamp validation id desk j).eq_of_outcome? (hkind ▸ ho)
    have hengine := (run_ensures engine files stamp validation id desk j).eq_of_outcome? ho
    exact hne (hother.trans hengine.symm)

end Submission

end PackageScan
