import PackageScan.Proofs.Log.Adding
import PackageScan.Scan.Submission

/-!
# Runs can be traced in the log

Every event of a run carries the scanner and the upload, whichever part of the program logs it. Just
one of them tells a state in which a run ends. It is the last one, it tells how the run has ended,
and for a failure it is an error with the code of that failure (`Submission.run_traceable`).

What the scanners log are notes. So before a run ends, only its own events tell a state, and these
are states in which it goes on (`Event.IsPending`). Each way out of a run logs its end and is left
at once (`Logged.Closes`).
-/

namespace PackageScan

open Logged

/-! ### What scanners log -/

section Scanners

variable {scope : Scope}

private theorem Archive.notes_openAt (files : Files) (path : String) (limits : ArchiveLimits) :
    Adds scope (·.IsNote scope) (Archive.openAt files path limits) := by
  rw [Archive.openAt]
  cases files.read? path with
  | none => exact adds_pure _
  | some data =>
    dsimp only
    split
    · exact (notes_emit rfl (by simp [IsPlain])).bind fun _ => adds_pure _
    · exact adds_pure _
    · exact (notes_debug (by simp [IsPlain])).bind fun _ => adds_pure _

private theorem Sweep.notes_addLogged (rules : RuleSet) (s : Sweep) (file : ArchiveFile) :
    Adds scope (·.IsNote scope) (s.addLogged rules file) := by
  rw [addLogged]
  split_ifs
  · exact (notes_emit rfl (by simp [IsPlain])).bind fun _ => adds_pure _
  · exact adds_pure _

private theorem Sweep.notes_addAll (rules : RuleSet)
    (contents : List (Except ArchiveError ArchiveFile))
    (s : Sweep) : Adds scope (·.IsNote scope) (addAll rules contents s) := by
  induction contents generalizing s with
  | nil => exact adds_pure _
  | cons content rest ih =>
    cases content with
    | ok file =>
      rw [addAll]
      exact (notes_addLogged rules s file).bind fun added => ih added
    | error e =>
      rw [addAll]
      split_ifs
      · exact (notes_emit rfl (by simp [IsPlain])).bind fun _ => ih _
      · exact adds_pure _

private theorem notes_sweepArchive (rules : RuleSet) (files : Files) (path : String)
    (limits : ArchiveLimits) :
    Adds scope (·.IsNote scope) (sweepArchive rules files path limits) := by
  rw [sweepArchive]
  refine (Archive.notes_openAt files path limits).bind ?_
  rintro (e | archive)
  · exact adds_pure _
  dsimp only
  refine (Sweep.notes_addAll rules _ {}).bind ?_
  rintro ⟨s, outcome⟩
  refine Adds.bind (notes_debug (by simp [IsPlain])) fun _ => ?_
  cases outcome with
  | error e => exact adds_pure _
  | ok _ => exact (notes_emit rfl (by simp [IsPlain])).bind fun _ => adds_pure _

private theorem Snapshot.notes_addIsolated (sources : List (StoredRule × String)) (c : Compiler) :
    Adds scope (·.IsNote scope) (addIsolated sources c) := by
  induction sources generalizing c with
  | nil => exact adds_pure c
  | cons source rest ih =>
    rw [addIsolated]
    refine (Compiler.notes_addSource c source.2).bind ?_
    rintro ⟨_ | _, c⟩
    · exact (notes_emit rfl (by simp [IsPlain])).bind fun _ => ih c
    · exact ih c

private theorem Snapshot.notes_compile (policy : CompilationPolicy)
    (preferences : CompilerPreferences)
    (s : Snapshot) : Adds scope (·.IsNote scope) (s.compile policy preferences) := by
  cases policy with
  | allOrNothing => exact RuleSet.notes_compileLogged preferences s.joined
  | isolated =>
    rw [Snapshot.compile]
    exact (notes_addIsolated s.compilable _).bind fun c =>
      (Compiler.notes_build c).bind fun _ => adds_pure _

private theorem Metrics.notes_countLogged (m : Metrics) (name : String) :
    Adds scope (·.IsNote scope) (m.countLogged name) := by
  rw [countLogged]
  split_ifs
  · exact (notes_debug (by simp [IsPlain])).bind fun _ => adds_pure _
  · exact adds_pure _

private theorem Metrics.notes_timeLogged (m : Metrics) (name : String) :
    Adds scope (·.IsNote scope) (m.timeLogged name) := by
  rw [timeLogged]
  split_ifs
  · exact (notes_debug (by simp [IsPlain])).bind fun _ => adds_pure _
  · exact adds_pure _

private theorem Metrics.notes_countAll (names : List String) (m : Metrics) :
    Adds scope (·.IsNote scope) (countAll names m) := by
  induction names generalizing m with
  | nil => exact adds_pure m
  | cons name rest ih => exact (notes_countLogged m name).bind fun counted => ih counted

namespace Engine

/-- The engine is the local one or a remote one. -/
inductive IsProvided : Engine → Prop
  | ruleBased (files : Files) (policy : CompilationPolicy) (preferences : CompilerPreferences)
      (limits : ArchiveLimits) : IsProvided (ruleBased files policy preferences limits)
  | remote (kind : ScannerKind) (endpoint : Endpoint) (site : String) (network : Network) :
      IsProvided (remote kind endpoint site network)

private theorem notes_ask (network : Network) (url : String) (request : Request) :
    Adds scope (·.IsNote scope) (ask network url request) := by
  rw [ask]
  cases network url request with
  | error reason => exact adds_pure _
  | ok reply => exact (notes_debug (by simp [IsPlain])).bind fun _ => adds_pure _

/-- **Scanners leave notes.** -/
theorem IsProvided.notes_run {engine : Engine} (h : engine.IsProvided) (upload : Upload)
    (snapshot : Snapshot) : Adds scope (·.IsNote scope) (engine.run upload snapshot) := by
  cases h with
  | ruleBased files policy preferences limits =>
    refine (Snapshot.notes_compile policy preferences snapshot).bind ?_
    rintro (e | rules)
    · exact adds_pure _
    have hsweep : Adds scope (·.IsNote scope) (sweepPackage rules files upload.path limits) := by
      rw [sweepPackage]
      refine (notes_sweepArchive rules files upload.path limits).bind ?_
      rintro (_ | _) <;> exact adds_pure _
    exact hsweep.bind fun _ => adds_pure _
  | remote kind endpoint site network =>
    rw [Engine.remote]
    dsimp only
    split_ifs
    · exact (notes_emit rfl (by simp [IsPlain])).bind fun _ =>
        (notes_ask network endpoint.apiUrl _).bind fun _ => adds_pure _
    · exact adds_pure _

end Engine

end Scanners

/-! ### States of a run -/

/-- The states in which runs end, by name. -/
def finalStates : List String := ["stored", "skipped", "failed"]

/-- The event is of the scan and tells no state in which runs end. -/
def Event.IsPending (scope : Scope) (e : Event) : Prop :=
  e.IsOf scope ∧ ∀ state ∈ finalStates, e.state? ≠ some state

private theorem Event.IsNote.isPending {scope : Scope} {e : Event} (h : e.IsNote scope) :
    e.IsPending scope := by
  refine ⟨h.1, fun state _ => ?_⟩
  rw [h.2]
  exact Option.some_ne_none state |>.symm

/-- The event is of the scan and tells how it has ended. -/
structure Event.Reports (scope : Scope) (outcome : ScanOutcome) (e : Event) : Prop where
  /-- It is of the scan. -/
  isOf : e.IsOf scope
  /-- It tells the state in which the run has ended. -/
  state?_eq : e.state? = some outcome.state.name
  /-- A failure is an error and has the code of what has failed. -/
  error_of_failed : ∀ failure, outcome = .failed failure → e.level = .error ∧ e.code = failure.code

/-- The journal goes on with events of the scan up to one, the last, which tells how it has
ended. -/
structure Journal.Closes (scope : Scope) (outcome : ScanOutcome) (j k : Journal) : Prop where
  /-- The scan in progress is the same. -/
  scope_eq : k.scope = j.scope
  /-- The end comes last, and not before. -/
  events_eq : ∃ before last, k.events = j.events ++ (before ++ [last]) ∧
    (∀ e ∈ before, e.IsPending scope) ∧ last.Reports scope outcome

namespace Logged

variable {α : Type} {scope : Scope} {work : Logged α} {f : α → Logged (ScanOutcome × Desk)}

/-- Inside the scan, and if everything is logged, the work ends the scan. -/
def Closes (scope : Scope) (work : Logged (ScanOutcome × Desk)) : Prop :=
  ∀ j : Journal, j.scope = some scope → j.least = .debug →
    j.Closes scope (work.run j).1.1 (work.run j).2

/-- What adds events that leave the end open may come first. -/
private theorem Adds.closes_bind (h : Adds scope (·.IsPending scope) work)
    (hf : ∀ a, Closes scope (f a)) :
    Closes scope (work >>= f) := by
  intro j hj hleast
  have hfirst : j.Continues (·.IsPending scope) (work.run j).2 := h j hj
  have hrest : (work.run j).2.Closes scope _ _ :=
    hf (work.run j).1 (work.run j).2 (hfirst.scope_eq.trans hj) (hfirst.least_eq.trans hleast)
  obtain ⟨added, hadded, hpending⟩ := hfirst.events_eq
  obtain ⟨before, last, hevents, hbefore, hlast⟩ := hrest.events_eq
  refine ⟨hrest.scope_eq.trans hfirst.scope_eq, added ++ before, last, ?_, ?_, hlast⟩
  · rw [List.append_assoc, ← List.append_assoc j.events, ← hadded]
    exact hevents
  · exact List.forall_mem_append.mpr ⟨hpending, hbefore⟩

/-- An event that tells an outcome closes the scan with it. -/
private theorem closes_emit {event : Event} {outcome : ScanOutcome}
    {context : List (String × String)}
    {desk : Desk} (hevent : event.context = []) (hplain : IsPlain context)
    (hfailed : ∀ failure, outcome = .failed failure →
      event.level = .error ∧ event.code = failure.code) :
    Closes scope (do
      Log.emit event (Submission.stateContext outcome.state :: context)
      return (outcome, desk)) := by
  intro j hj hleast
  have hkeys : ∀ pair ∈ Submission.stateContext outcome.state :: context,
      pair.1 ≠ "scanner" ∧ pair.1 ≠ "target" := by
    rw [List.forall_mem_cons]
    exact ⟨by simp [Submission.stateContext], fun pair hpair =>
      ⟨(hplain pair hpair).1, (hplain pair hpair).2.1⟩⟩
  have hstate : (Submission.stateContext outcome.state :: context).reverse.lookup "state" =
      some outcome.state.name := by
    rw [List.reverse_cons, List.lookup_append,
      lookup_reverse_eq_none fun pair hpair => (hplain pair hpair).2.2]
    rfl
  have hpasses : ∀ level : Level, level.passes j.least = true := by
    intro level
    rw [hleast]
    cases level <;> rfl
  refine ⟨Journal.scope_record, [], _, Journal.events_record (hpasses _), ?_, ?_⟩
  · exact fun e he => absurd he List.not_mem_nil
  · exact
      { isOf := Journal.isOf_entry hj hevent (fun pair hpair => (hkeys pair hpair).1)
          fun pair hpair => (hkeys pair hpair).2
        state?_eq := (Journal.state?_entry hevent).trans hstate
        error_of_failed := hfailed }

/-- An event that tells that the run goes on leaves the end open. -/
private theorem pending_entry {j : Journal} {event : Event} {state : ScanState}
    (hj : j.scope = some scope)
    (hevent : event.context = []) (hstate : state.name ∉ finalStates) :
    (j.entry event [Submission.stateContext state]).IsPending scope := by
  refine ⟨Journal.isOf_entry hj hevent (by simp [Submission.stateContext])
    (by simp [Submission.stateContext]), fun final hfinal => ?_⟩
  rw [Journal.state?_entry hevent]
  rintro ⟨⟩
  exact hstate hfinal

end Logged

/-! ### Stages of a run -/

namespace Submission

variable {scope : Scope}

private theorem pending_of_notes {α : Type} {work : Logged α}
    (h : Adds scope (·.IsNote scope) work) :
    Adds scope (·.IsPending scope) work :=
  h.mono fun _ he => he.isPending

private theorem notes_settle (stamp : Stamp) (kind : ScannerKind) (id : Nat) (payload : Payload)
    (desk : Desk) : Adds scope (·.IsNote scope) (settle stamp kind id payload desk) := by
  rw [settle]
  cases desk.store.rules kind with
  | error e => exact adds_pure _
  | ok known =>
    dsimp only
    cases desk.store.storeScanResult (.create stamp id kind payload known) with
    | error e => exact adds_pure _
    | ok store => exact (Metrics.notes_countAll _ _).bind fun _ => adds_pure _

private theorem pending_execute {engine : Engine} (hengine : engine.IsProvided) (files : Files)
    (stamp : Stamp) (upload : Upload) (id : Nat) (desk : Desk) :
    Adds scope (·.IsPending scope) (execute engine files stamp upload id desk) := by
  rw [execute]
  refine (adds_debug fun j hj => pending_entry hj rfl (by decide)).bind fun _ => ?_
  refine pending_of_notes ?_
  split_ifs
  · cases desk.store.activeRules engine.kind with
    | error e => exact adds_pure _
    | ok snapshot =>
      refine (hengine.notes_run upload snapshot).bind fun answer => ?_
      refine (Metrics.notes_timeLogged _ _).bind fun metrics => ?_
      cases answer with
      | error e => exact adds_pure _
      | ok payload => exact notes_settle _ _ _ _ _
  · exact adds_pure _

private theorem closes_fail (kind : ScannerKind) (e : ScanError) (desk : Desk) :
    Closes scope (fail kind e desk) := by
  rw [fail]
  refine (pending_of_notes (Metrics.notes_countLogged _ _)).closes_bind fun metrics => ?_
  refine closes_emit rfl (by simp [IsPlain]) fun failure hfailure => ?_
  obtain rfl := ScanOutcome.failed.inj hfailure
  exact ⟨rfl, rfl⟩

private theorem closes_succeed (result : ScanResult) (desk : Desk) :
    Closes scope (succeed result desk) :=
  closes_emit rfl (by simp [IsPlain]) fun _ hfailure => nomatch hfailure

private theorem closes_skip (reason : String) (desk : Desk) :
    Closes scope (do
      logSkipped reason
      return (.skipped, desk)) :=
  closes_emit rfl (by simp [IsPlain]) fun _ hfailure => nomatch hfailure

/-- Every way through a run closes it. -/
private theorem closes_proceed {engine : Engine} (hengine : engine.IsProvided) (files : Files)
    (stamp : Stamp) (validation : Json) (id : Nat) (desk : Desk) :
    Closes scope (proceed engine files stamp validation id desk) := by
  rw [proceed]
  split_ifs
  · exact closes_skip _ _
  cases desk.store.upload id with
  | error e => exact closes_fail _ _ _
  | ok upload =>
    dsimp only
    split_ifs
    · exact closes_skip _ _
    refine (pending_execute hengine files stamp upload id desk).closes_bind ?_
    rintro ⟨_ | _, desk⟩
    · exact closes_fail _ _ _
    · exact closes_succeed _ _

/-- A run closes the scan that it opens. -/
theorem closes_run {engine : Engine} (hengine : engine.IsProvided) (files : Files) (stamp : Stamp)
    (validation : Json) (id : Nat) (desk : Desk) :
    Closes ⟨engine.kind.name, toString id⟩ (do
      Log.info "Starting scanner task" [stateContext .gateCheck]
      proceed engine files stamp validation id desk) := by
  have hstart : Adds ⟨engine.kind.name, toString id⟩
      (·.IsPending ⟨engine.kind.name, toString id⟩)
      (Log.info "Starting scanner task" [stateContext .gateCheck]) :=
    adds_emit fun j hj => pending_entry hj rfl (by decide)
  exact hstart.closes_bind fun _ => closes_proceed hengine files stamp validation id desk

/-- **Runs can be traced in the log.** A run of a provided engine, with everything logged, adds
events which all carry the scanner and the upload, whatever scan it is run in. The last of them
tells the state in which the run has ended, and no other tells such a state; if the run has failed,
it is an error with the code of the failure. Afterwards the scan in progress is the one it was. -/
theorem run_traceable {engine : Engine} (hengine : engine.IsProvided) (files : Files)
    (stamp : Stamp) (validation : Json) (id : Nat) (desk : Desk) (j : Journal)
    (hleast : j.least = .debug) :
    let reached := (run engine files stamp validation id desk).run j
    ∃ before last, reached.2.events = j.events ++ (before ++ [last]) ∧
      (∀ e ∈ before ++ [last], e.context.find? "scanner" = some engine.kind.name ∧
        e.context.find? "target" = some (toString id)) ∧
      (∀ e ∈ before, ∀ state ∈ ["stored", "skipped", "failed"],
        e.context.find? "state" ≠ some state) ∧
      last.context.find? "state" = some reached.1.1.state.name ∧
      reached.1.1.state.name ∈ ["stored", "skipped", "failed"] ∧
      (∀ failure, reached.1.1 = .failed failure →
        last.level = .error ∧ last.code = failure.code) ∧
      reached.2.scope = j.scope := by
  intro reached
  obtain ⟨before, last, hevents, hbefore, hlast⟩ :=
    (closes_run hengine files stamp validation id desk
      { j with scope := some ⟨engine.kind.name, toString id⟩ } rfl hleast).events_eq
  refine ⟨before, last, hevents, ?_, fun e he => (hbefore e he).2, hlast.state?_eq, ?_,
    hlast.error_of_failed, rfl⟩
  · intro e he
    obtain hin | hend := List.mem_append.mp he
    · exact ⟨(hbefore e hin).1.scanner_eq, (hbefore e hin).1.target_eq⟩
    · rw [List.mem_singleton.mp hend]
      exact ⟨hlast.isOf.scanner_eq, hlast.isOf.target_eq⟩
  · cases reached.1.1 <;> simp [ScanOutcome.state, ScanState.name]

/-- A run inside another scan, of an upload that does not exist: the last event tells that it has
failed and why, and the other scan is in progress again. -/
theorem run_traceable_missing :
    let engine := Engine.remote .wat {} "" fun _ _ => .error ""
    let outer : Journal := { scope := some ⟨"yara", "version:3"⟩ }
    let reached := (run engine (fun _ => none) {} .null 1 {}).run outer
    ∃ before last, reached.2.events = before ++ [last] ∧
      last.context.find? "target" = some "1" ∧ last.context.find? "state" = some "failed" ∧
      last.code = .targetNotFound ∧ reached.2.scope = some ⟨"yara", "version:3"⟩ := by
  intro engine outer reached
  obtain ⟨before, last, hevents, hof, -, hstate, -, hfailed, hscope⟩ :=
    run_traceable (.remote .wat {} "" fun _ _ => .error "") (fun _ => none) {} .null 1 {} outer rfl
  have hend : reached.1.1 = .failed (.store (.notFound "upload" 1)) := rfl
  have hlast : last ∈ before ++ [last] := List.mem_append_right _ (List.mem_singleton_self last)
  exact ⟨before, last, hevents, (hof last hlast).2, hstate, (hfailed _ hend).2, hscope⟩

end Submission

end PackageScan
