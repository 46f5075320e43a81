import PackageScan.Proofs.Scan.Histories
import PackageScan.Proofs.Scan.Naming
import PackageScan.Proofs.Scan.Submitting

/-!
# The accounts of scans are exact

In a history of runs of scanners, with any upkeep of the store between them, the counters tell what
is stored and how the runs have ended (`Submission.Accounts`): as many successes as rows and as runs
that ended with a result, as many failures as runs that failed, a match counted for each row with
matches and for each rule that a row lists, and a duration for each run that invoked its scanner.

The invariant is stated over tallies (`Submission.expected`), of which no two share a counter. A run
that is skipped leaves everything alone; one that fails counts its failure and nothing else; one
that stores a result raises just the tallies of that result (`ScanResult.count_tallies`).
-/

namespace PackageScan

open Logged

/-! ### What a result counts -/

namespace ScanResult

open Metrics

/-- The tallies that a stored result raises. -/
def tallies (r : ScanResult) : List Tally :=
  (if r.hasMatches then .matching r.scanner :: r.matchedRules.map (.rule r.scanner) else []) ++
    [.success r.scanner]

private theorem counters_eq (r : ScanResult) : r.counters = r.tallies.map Tally.name := by
  rw [counters, tallies]
  cases r.hasMatches with
  | false => rfl
  | true =>
    simp only [if_true, List.cons_append, List.map_cons, List.map_append, List.map_map]
    rfl

/-- How often a result that lists each rule once, and none without matches, raises a tally. -/
def raises (r : ScanResult) : Tally → Nat
  | .success kind => if r.scanner = kind then 1 else 0
  | .failure _ => 0
  | .matching kind => if r.scanner = kind ∧ r.hasMatches = true then 1 else 0
  | .rule kind id => if r.scanner = kind ∧ id ∈ r.matchedRules then 1 else 0

private theorem count_rule_map (kind kind' : ScannerKind) (id : Nat) {ids : List Nat}
    (h : ids.Nodup) :
    (ids.map (Tally.rule kind)).count (.rule kind' id) =
      if kind = kind' ∧ id ∈ ids then 1 else 0 := by
  by_cases hkind : kind = kind'
  · have hinj : Function.Injective (Tally.rule kind) := fun a b hab => by simpa using hab
    rw [← hkind, List.count_map_of_injective _ _ hinj, h.count]
    simp only [true_and]
  · have hnot : Tally.rule kind' id ∉ ids.map (Tally.rule kind) := by
      simp only [List.mem_map, Tally.rule.injEq, not_exists, not_and]
      exact fun _ _ hk => absurd hk hkind
    rw [List.count_eq_zero_of_not_mem hnot, if_neg fun hboth => hkind hboth.1]

theorem count_tallies {r : ScanResult} (hnodup : r.matchedRules.Nodup)
    (hmatches : ∀ id ∈ r.matchedRules, r.hasMatches = true) (t : Tally) :
    r.tallies.count t = r.raises t := by
  rw [tallies, List.count_append]
  cases hm : r.hasMatches with
  | false =>
    have hnone (id : Nat) : id ∉ r.matchedRules := fun hid =>
      Bool.false_ne_true (hm.symm.trans (hmatches id hid))
    cases t <;> simp [raises, hm, hnone, List.count_singleton]
  | true =>
    rw [if_pos rfl, List.count_cons]
    cases t with
    | rule kind id =>
      rw [count_rule_map r.scanner kind id hnodup]
      simp [raises]
    | success kind | failure kind | matching kind =>
      -- these are not among the tallies of rules
      have hnot : ∀ x ∈ r.matchedRules.map (Tally.rule r.scanner), ∃ id, x = .rule r.scanner id :=
        fun x hx => by
          obtain ⟨id, -, rfl⟩ := List.mem_map.mp hx
          exact ⟨id, rfl⟩
      rw [List.count_eq_zero_of_not_mem fun hmem => by
        obtain ⟨id, hid⟩ := hnot _ hmem
        exact nomatch hid]
      simp [raises, hm, List.count_singleton]

end ScanResult

namespace Submission

open Metrics

variable {engine : Engine} {files : Files} {stamp : Stamp} {validation : Json} {id : Nat}
variable {desk after : Desk} {outcome : ScanOutcome} {kind : ScannerKind}

/-! ### Histories of scans -/

/-- A step of a history of scans. -/
inductive Step where
  /-- A change to the store from outside. -/
  | upkeep (change : Store.Upkeep Store.scanRows)
  /-- A run of a scanner. -/
  | scan (engine : Engine) (files : Files) (stamp : Stamp) (validation : Json) (id : Nat)

/-- What is remembered of a run. -/
structure Turn where
  /-- The kind of scanner. -/
  kind : ScannerKind
  /-- Has the scanner been invoked? -/
  asked : Bool
  /-- How the run has ended. -/
  outcome : ScanOutcome

/-- The result that a run has ended with. -/
def Turn.result? (t : Turn) : Option ScanResult :=
  match t.outcome with
  | .stored r => some r
  | .skipped | .failed _ => none

/-- Takes a step, and remembers it if it is a run. -/
def Step.take : Step → Desk → Logged (List Turn × Desk)
  | .upkeep change, desk => return ([], { desk with store := change.apply desk.store })
  | .scan engine files stamp validation id, desk => do
    let asked := asks engine.kind files validation id desk.store
    let (outcome, after) ← run engine files stamp validation id desk
    return ([⟨engine.kind, asked, outcome⟩], after)

/-- Number of runs of a kind that have ended in a state. -/
def ended (turns : List Turn) (kind : ScannerKind) (state : ScanState) : Nat :=
  turns.countP fun t => t.kind = kind ∧ t.outcome.state = state

/-- Number of runs of a kind that have invoked the scanner. -/
def asked (turns : List Turn) (kind : ScannerKind) : Nat :=
  turns.countP fun t => t.kind = kind ∧ t.asked = true

/-- The rows of a kind. -/
def rowsOf (store : Store) (kind : ScannerKind) : List ScanResult :=
  store.scanRows.filter fun r => r.scanner = kind

/-- The accounts of a kind: what the counters and the rows say about the runs. -/
structure Accounts (turns : List Turn) (desk : Desk) (kind : ScannerKind) : Prop where
  /-- Each run has ended stored, skipped or failed. -/
  runs : turns.countP (fun t => t.kind = kind) =
    ended turns kind .stored + ended turns kind .skipped + ended turns kind .failed
  /-- The rows are the results of the runs that have ended stored. -/
  rows_eq : rowsOf desk.store kind = (turns.filter fun t => t.kind = kind).filterMap Turn.result?
  /-- There are as many rows as runs that have ended stored. -/
  rows : (rowsOf desk.store kind).length = ended turns kind .stored
  /-- So many successes are counted. -/
  successes : desk.metrics.countOf (Metrics.successes kind) = ended turns kind .stored
  /-- As many failures are counted as runs have failed. -/
  failures : desk.metrics.countOf (Metrics.failures kind) = ended turns kind .failed
  /-- As many runs with matches are counted as there are rows with matches. -/
  matchings : desk.metrics.countOf (Metrics.matchings kind) =
    (rowsOf desk.store kind).countP ScanResult.hasMatches
  /-- A rule is counted as often as there are rows that list it. -/
  rules : ∀ id, desk.metrics.countOf (Metrics.ruleCounter kind id) =
    (rowsOf desk.store kind).countP fun r => id ∈ r.matchedRules
  /-- As many durations are kept as runs have invoked the scanner. -/
  timings : desk.metrics.timingsOf (Metrics.timer kind) = asked turns kind

/-! ### The invariant -/

/-- How often a tally has to have been raised. -/
def expected (turns : List Turn) (store : Store) : Tally → Nat
  | .success kind => ended turns kind .stored
  | .failure kind => ended turns kind .failed
  | .matching kind => (rowsOf store kind).countP ScanResult.hasMatches
  | .rule kind id => (rowsOf store kind).countP fun r => id ∈ r.matchedRules

/-- What holds after every history. -/
structure Balanced (turns : List Turn) (desk : Desk) : Prop where
  tallies : ∀ t : Tally, desk.metrics.countOf t.name = expected turns desk.store t
  timings : ∀ kind, desk.metrics.timingsOf (timer kind) = asked turns kind
  rows_eq : ∀ kind, rowsOf desk.store kind =
    (turns.filter fun t => t.kind = kind).filterMap Turn.result?

private theorem ended_concat (turns : List Turn) (t : Turn) (kind : ScannerKind)
    (state : ScanState) :
    ended (turns ++ [t]) kind state =
      ended turns kind state + if t.kind = kind ∧ t.outcome.state = state then 1 else 0 := by
  rw [ended, List.countP_append, List.countP_singleton]
  simp only [decide_eq_true_eq]
  rfl

private theorem asked_concat (turns : List Turn) (t : Turn) (kind : ScannerKind) :
    asked (turns ++ [t]) kind =
      asked turns kind + if t.kind = kind ∧ t.asked = true then 1 else 0 := by
  rw [asked, List.countP_append, List.countP_singleton]
  simp only [decide_eq_true_eq]
  rfl

private theorem rowsOf_createScanResult (store : Store) (r : ScanResult) (kind : ScannerKind) :
    rowsOf (store.createScanResult r) kind =
      rowsOf store kind ++ if r.scanner = kind then [r] else [] := by
  rw [rowsOf, Store.createScanResult, List.filter_append, ← rowsOf]
  by_cases hk : r.scanner = kind <;> simp [hk]

/-- A run that has failed is one more of its kind. -/
private theorem expected_failed (turns : List Turn) (store : Store) (kind : ScannerKind) (b : Bool)
    (e : ScanError) (t : Tally) :
    expected (turns ++ [⟨kind, b, .failed e⟩]) store t =
      expected turns store t + if t = .failure kind then 1 else 0 := by
  cases t with
  | success k => simp [expected, ended_concat, ScanOutcome.state]
  | failure k => simp [expected, ended_concat, ScanOutcome.state, eq_comm]
  | matching k => simp [expected]
  | rule k id => simp [expected]

/-- A run that has been skipped is not counted. -/
private theorem expected_skipped (turns : List Turn) (store : Store) (kind : ScannerKind) (b : Bool)
    (t : Tally) : expected (turns ++ [⟨kind, b, .skipped⟩]) store t = expected turns store t := by
  cases t with
  | success k => simp [expected, ended_concat, ScanOutcome.state]
  | failure k => simp [expected, ended_concat, ScanOutcome.state]
  | matching k => rfl
  | rule k id => rfl

/-- A run that has stored a result of its kind raises what the result raises. -/
private theorem expected_stored (turns : List Turn) (store : Store) (r : ScanResult) (b : Bool)
    (t : Tally) :
    expected (turns ++ [⟨r.scanner, b, .stored r⟩]) (store.createScanResult r) t =
      expected turns store t + r.raises t := by
  cases t with
  | success k => simp [expected, ended_concat, ScanOutcome.state, ScanResult.raises]
  | failure k => simp [expected, ended_concat, ScanOutcome.state, ScanResult.raises]
  | matching k =>
    rw [expected, rowsOf_createScanResult, List.countP_append, expected, ScanResult.raises]
    by_cases hk : r.scanner = k <;> simp [hk, List.countP_singleton]
  | rule k id =>
    rw [expected, rowsOf_createScanResult, List.countP_append, expected, ScanResult.raises]
    by_cases hk : r.scanner = k <;> simp [hk, List.countP_singleton]

private theorem results_concat (turns : List Turn) (t : Turn) (kind : ScannerKind) :
    ((turns ++ [t]).filter fun u => u.kind = kind).filterMap Turn.result? =
      (turns.filter fun u => u.kind = kind).filterMap Turn.result? ++
        if t.kind = kind then t.result?.toList else [] := by
  rw [List.filter_append, List.filterMap_append]
  by_cases hk : t.kind = kind
  · cases hr : t.result? <;> simp [hk, hr]
  · simp [hk]

/-! ### One step -/

/-- What is concluded is a result of the scanner, and a row more. -/
theorem of_conclude_eq_ok {store store' : Store} {answer : Except ScanError Payload}
    {result : ScanResult} (h : conclude stamp kind id store answer = .ok (result, store')) :
    (∃ payload known, result = ScanResult.create stamp id kind payload known) ∧
      store' = store.createScanResult result := by
  obtain ⟨payload, -, h⟩ := Outcome.bind_eq_ok.mp h
  obtain ⟨known, -, h⟩ := Outcome.bind_eq_ok.mp h
  obtain ⟨after, hafter, h⟩ := Outcome.bind_eq_ok.mp h
  obtain ⟨-, hstore⟩ := Store.guarded_eq_ok.mp (Outcome.mapError_eq_ok.mp hafter)
  cases hstore
  cases h
  exact ⟨⟨payload, known, rfl⟩, rfl⟩

/-- A run that has not stored anything leaves the rows in balance. -/
private theorem Balanced.rows_eq_of_none {past : List Turn} (h : Balanced past desk) {t : Turn}
    (hnone : t.result? = none) (kind : ScannerKind) :
    rowsOf desk.store kind =
      ((past ++ [t]).filter fun u => u.kind = kind).filterMap Turn.result? := by
  rw [results_concat, hnone, h.rows_eq kind]
  simp

/-- A result raises its own tallies, and each of them once. -/
private theorem countOf_countingResult {store store' : Store} {answer : Except ScanError Payload}
    {result : ScanResult} (h : conclude stamp kind id store answer = .ok (result, store'))
    (t : Tally) :
    (desk.countingResult result store').metrics.countOf t.name =
      desk.metrics.countOf t.name + result.raises t := by
  obtain ⟨⟨payload, known, rfl⟩, -⟩ := of_conclude_eq_ok h
  rw [Desk.countingResult, ScanResult.counters_eq, countOf_tallies, ScanResult.count_tallies]
  · exact ScanResult.nodup_matchedRules
  · exact fun id hid => ScanResult.hasMatches_of_mem hid

/-- **One run.** However a run ends, what is counted stays in balance. -/
theorem Balanced.scan {past : List Turn} (h : Balanced past desk)
    (hend : Ends engine files stamp validation id desk outcome after) :
    Balanced (past ++ [⟨engine.kind, asks engine.kind files validation id desk.store, outcome⟩])
      after := by
  have hasks := asks.eq_def engine.kind files validation id desk.store
  -- the first two ends are come to without the scanner, the others by its answer
  cases hend with
  | skipped hopening =>
    rw [hopening, Opening.outcome?] at hasks
    refine ⟨fun t => ?_, fun kind => ?_, h.rows_eq_of_none rfl⟩
    · rw [expected_skipped, h.tallies]
    · rw [asked_concat, h.timings, hasks]
      simp
  | stopped hopening =>
    rw [hopening, Opening.outcome?] at hasks
    refine ⟨fun t => ?_, fun kind => ?_, h.rows_eq_of_none rfl⟩
    · rw [expected_failed, Desk.countOf_countingFailure, h.tallies, Desk.store_countingFailure]
    · rw [asked_concat, Desk.timingsOf_countingFailure, h.timings, hasks]
      simp
  | failed hopening =>
    rw [hopening, Opening.outcome?] at hasks
    refine ⟨fun t => ?_, fun kind => ?_, h.rows_eq_of_none rfl⟩
    · rw [expected_failed, Desk.countOf_countingFailure, Desk.countOf_timed, h.tallies,
        Desk.store_countingFailure, Desk.store_timed]
    · rw [asked_concat, Desk.timingsOf_countingFailure, Desk.timingsOf_timed, h.timings, hasks]
      simp [eq_comm]
  | @stored _ _ answer result store hopening _ hconclude =>
    rw [hopening, Opening.outcome?] at hasks
    obtain ⟨⟨payload, known, hresult⟩, hstore⟩ := of_conclude_eq_ok hconclude
    have hkind : engine.kind = result.scanner := by rw [hresult]; rfl
    refine ⟨fun t => ?_, fun kind => ?_, fun kind => ?_⟩
    · rw [countOf_countingResult hconclude, Desk.countOf_timed, h.tallies,
        Desk.store_countingResult, hstore, hkind, expected_stored]
    · rw [asked_concat, Desk.timingsOf_countingResult, Desk.timingsOf_timed, h.timings, hasks]
      simp [eq_comm]
    · rw [Desk.store_countingResult, hstore, rowsOf_createScanResult, results_concat, h.rows_eq,
        hkind]
      rfl

/-- Upkeep of the store does not touch the accounts. -/
theorem Balanced.upkeep {past : List Turn} (h : Balanced past desk)
    (change : Store.Upkeep Store.scanRows) :
    Balanced past { desk with store := change.apply desk.store } := by
  have hrows (kind : ScannerKind) :
      rowsOf (change.apply desk.store) kind = rowsOf desk.store kind := by
    rw [rowsOf, change.rows_apply, rowsOf]
  refine ⟨fun t => ?_, h.timings, fun kind => (hrows kind).trans (h.rows_eq kind)⟩
  rw [show expected past (change.apply desk.store) t = expected past desk.store t by
    cases t <;> simp only [expected, hrows]]
  exact h.tallies t

theorem Balanced.take {past : List Turn} (h : Balanced past desk) (step : Step) :
    Ensures (step.take desk) fun reached => Balanced (past ++ reached.1) reached.2 := by
  cases step with
  | upkeep change =>
    refine ensures_pure ?_
    rw [List.append_nil]
    exact h.upkeep change
  | scan engine files stamp validation id =>
    refine (run_ensures engine files stamp validation id desk).bind fun reached hend => ?_
    exact ensures_pure (h.scan hend)

private theorem balanced_empty : Balanced [] {} where
  tallies t := by cases t <;> rfl
  timings _ := rfl
  rows_eq _ := rfl

/-! ### All steps -/

/-- Each run ends in one of three states. -/
private theorem countP_kind_eq (turns : List Turn) (kind : ScannerKind) :
    turns.countP (fun t => t.kind = kind) =
      ended turns kind .stored + ended turns kind .skipped + ended turns kind .failed := by
  induction turns with
  | nil => rfl
  | cons t turns ih =>
    simp only [ended, List.countP_cons] at ih ⊢
    rw [ih]
    rcases t with ⟨k, b, _ | _ | _⟩ <;> by_cases hk : k = kind <;> simp [hk, ScanOutcome.state] <;>
      omega

/-- The results of a kind are as many as its runs that have ended stored. -/
private theorem length_results (turns : List Turn) (kind : ScannerKind) :
    ((turns.filter fun t => t.kind = kind).filterMap Turn.result?).length =
      ended turns kind .stored := by
  induction turns with
  | nil => rfl
  | cons t turns ih =>
    rw [ended, List.countP_cons, ← ended, ← ih]
    rcases t with ⟨k, b, _ | _ | _⟩ <;> by_cases hk : k = kind <;>
      simp [hk, List.filterMap_cons, Turn.result?, ScanOutcome.state]

private theorem Balanced.accounts {turns : List Turn} (h : Balanced turns desk)
    (kind : ScannerKind) :
    Accounts turns desk kind where
  runs := countP_kind_eq turns kind
  rows_eq := h.rows_eq kind
  rows := by rw [h.rows_eq kind, length_results]
  successes := h.tallies (.success kind)
  failures := h.tallies (.failure kind)
  matchings := h.tallies (.matching kind)
  rules id := h.tallies (.rule kind id)
  timings := h.timings kind

/-! ### Runs that store nothing -/

/-- A run that fails stores nothing. -/
private theorem Ends.store_eq_of_failed {e : ScanError}
    (h : Ends engine files stamp validation id desk (.failed e) after) :
    after.store = desk.store := by
  cases h <;> rfl

/-- A run that is skipped leaves the desk alone. -/
private theorem Ends.eq_of_skipped (h : Ends engine files stamp validation id desk .skipped after) :
    after = desk := by
  cases h
  rfl

/-- A run is skipped exactly when the gate is closed. -/
private theorem Ends.eq_skipped_iff (h : Ends engine files stamp validation id desk outcome after) :
    outcome = .skipped ↔
      validation.isExtension? = some false ∨
        validation.isExtension? = none ∧
          ∃ upload, desk.store.upload id = .ok upload ∧ upload.isExtension = false := by
  have hgate : opening engine.kind files validation id desk.store = .skip ↔ _ := opening_eq_skip
  rw [← hgate]
  cases h with
  | skipped hopening => exact iff_of_true rfl hopening
  | stopped hopening | failed hopening | stored hopening =>
    exact iff_of_false (fun h => nomatch h) fun hskip => nomatch hopening.symm.trans hskip

/-- **The accounts are exact.** Let any runs of scanners be made from an empty desk, with any upkeep
of the store between them. For each kind of scanner, the counters, the durations, the rows and the
ends of the runs then agree. A run that fails adds no row, whatever the desk; a run is skipped if
validation says that the package is no extension, or says nothing and the upload says so itself,
and then leaves the desk alone. No two of the counters have the same name. -/
theorem accounts_runAll (steps : List Step) :
    (Ensures (Desk.runAll Step.take steps {}) fun reached =>
      ∀ kind, Accounts reached.1 reached.2 kind) ∧
    (∀ engine files stamp validation id desk,
      Ensures (run engine files stamp validation id desk) fun reached =>
        (∀ e, reached.1 = .failed e → reached.2.store = desk.store) ∧
        (reached.1 = .skipped → reached.2 = desk) ∧
        (reached.1 = .skipped ↔
          validation.isExtension? = some false ∨
            validation.isExtension? = none ∧
              ∃ upload, desk.store.upload id = .ok upload ∧ upload.isExtension = false)) ∧
    Function.Injective Tally.name := by
  refine ⟨?_, fun engine files stamp validation id desk => ?_, Tally.name_injective⟩
  · have hrun : Ensures (Desk.runAll Step.take steps {}) fun reached =>
        Balanced ([] ++ reached.1) reached.2 :=
      Desk.runAll_ensures (fun _ _ step h => h.take step) steps balanced_empty
    exact hrun.mono fun reached hreached kind => Balanced.accounts hreached kind
  · refine (run_ensures engine files stamp validation id desk).mono fun reached hend => ?_
    refine ⟨fun e he => ?_, fun hskip => ?_, hend.eq_skipped_iff⟩
    · rw [he] at hend
      exact hend.store_eq_of_failed
    · rw [hskip] at hend
      exact hend.eq_of_skipped

/-- A desk with a package in the store. -/
def submitted : Desk where
  store := Store.addUpload {} ⟨1, "a.xpi", true, .ofNat 0⟩

/-- Files of which every path names one. -/
def everywhere : Files := fun _ => some (.directory [])

/-- What validation says of a package that is no extension. -/
def ruledOut : Json := .obj [("metadata", .obj [("is_webextension", .bool false)])]

/-- A scanner that never finds what it is to scan. -/
def missing : Engine := refusing .yara (.targetNotFound "")

/-- Of a package in the store, this scanner leaves the rows as they are. Of one that is ruled out,
nothing is touched at all. -/
theorem accounts_runAll_submitted :
    let failing := ((run missing everywhere {} .null 1 submitted).run {}).1
    let skipping := ((run missing everywhere {} ruledOut 1 submitted).run {}).1
    (failing.1 = .failed (.targetNotFound "") ∧ failing.2.store = submitted.store) ∧
      skipping.1 = .skipped ∧ skipping.2 = submitted := by
  have hruns := (accounts_runAll []).2.1 missing everywhere {}
  have hfailed : ((run missing everywhere {} .null 1 submitted).run {}).1.1 =
      .failed (.targetNotFound "") := rfl
  obtain ⟨hrows, -, -⟩ := hruns .null 1 submitted {}
  obtain ⟨-, hleft, hgate⟩ := hruns ruledOut 1 submitted {}
  have hskipped := hgate.mpr (.inl rfl)
  exact ⟨⟨hfailed, hrows _ hfailed⟩, hskipped, hleft hskipped⟩

/-- Of a package that one scanner misses and another one scans, a failure and a success are counted,
and both invocations are timed. -/
example :
    let finding : Engine := ⟨.yara, fun _ _ => pure (.ok (.found []))⟩
    let steps := [.upkeep ⟨(·.addUpload ⟨1, "a.xpi", true, .ofNat 0⟩), fun _ => rfl⟩,
      .scan missing everywhere {} .null 1, .scan finding everywhere {} .null 1]
    let metrics := ((Desk.runAll Step.take steps {}).run {}).1.2.metrics
    metrics.countOf (successes .yara) = 1 ∧ metrics.countOf (failures .yara) = 1 ∧
      metrics.timingsOf (timer .yara) = 2 := by
  decide +kernel

end Submission

end PackageScan
