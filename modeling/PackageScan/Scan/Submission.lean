import PackageScan.Files
import PackageScan.Scan.Engine
import PackageScan.Scan.Metrics

/-!
# Scanning submitted packages

A run takes one upload to one engine. It passes a gate, which closes for packages that are no
extensions, runs the engine and stores the result. Every run ends stored, skipped or failed, and
the last event that it logs says which. A failure is an outcome like the others: it is counted and
logged, and whoever started the run goes on.
-/

namespace PackageScan

/-- What a run works on. -/
structure Desk where
  /-- What is stored. -/
  store : Store := {}
  /-- What is counted. -/
  metrics : Metrics := {}
  /-- Who takes follow-up actions. -/
  dispatcher : Dispatcher := {}

/-- How far a run has come. -/
inductive ScanState where
  | gateCheck
  | running
  | stored
  | skipped
  | failed
  deriving DecidableEq, Repr

/-- The name of a state. -/
def ScanState.name : ScanState → String
  | gateCheck => "gate_check"
  | running => "running"
  | stored => "stored"
  | skipped => "skipped"
  | failed => "failed"

/-- How a run has ended. -/
inductive ScanOutcome where
  /-- With a result. -/
  | stored (result : ScanResult)
  /-- Before the engine was run, because the package is no extension. -/
  | skipped
  /-- With a failure. -/
  | failed (e : ScanError)

/-- The state in which a run has ended. -/
def ScanOutcome.state : ScanOutcome → ScanState
  | stored _ => .stored
  | skipped => .skipped
  | failed _ => .failed

/-- The counters that a stored result raises. -/
def ScanResult.counters (r : ScanResult) : List String :=
  let rules :=
    if r.hasMatches then
      Metrics.matchings r.scanner :: r.matchedRules.map (Metrics.ruleCounter r.scanner)
    else []
  rules ++ [Metrics.successes r.scanner]

namespace Submission

/-- The named value that tells the state of a run. -/
def stateContext (state : ScanState) : String × String := ("state", state.name)

/-- Logs why a run ends before the engine is run. -/
def logSkipped (reason : String) : Logged Unit :=
  Log.success .scanSkipped "Not running scanner" [stateContext .skipped, ("reason", reason)]

/-- Stores the payload of an engine and counts it. -/
def settle (stamp : Stamp) (kind : ScannerKind) (upload : Nat) (payload : Payload) (desk : Desk) :
    Logged (Except ScanError ScanResult × Desk) := do
  match desk.store.rules kind with
  | .error e => return (.error (.store e), desk)
  | .ok known =>
    let result := ScanResult.create stamp upload kind payload known
    match desk.store.storeScanResult result with
    | .error e => return (.error (.store e), desk)
    | .ok store =>
      let metrics ← Metrics.countAll result.counters desk.metrics
      return (.ok result, { desk with store, metrics })

/-- Runs the engine on an upload that has passed the gate, and stores the result. -/
def execute (engine : Engine) (files : Files) (stamp : Stamp) (upload : Upload) (id : Nat)
    (desk : Desk) : Logged (Except ScanError ScanResult × Desk) := do
  Log.debug "Scanner running" [stateContext .running]
  if files.has upload.path then
    match desk.store.activeRules engine.kind with
    | .error e => return (.error (.store e), desk)
    | .ok snapshot =>
      let answer ← engine.run upload snapshot
      let metrics ← desk.metrics.timeLogged (Metrics.timer engine.kind)
      let desk := { desk with metrics }
      match answer with
      | .error e => return (.error e, desk)
      | .ok payload => settle stamp engine.kind id payload desk
  else return (.error (.targetNotFound upload.path), desk)

/-- Ends a run with a failure, which is counted and logged. -/
def fail (kind : ScannerKind) (e : ScanError) (desk : Desk) : Logged (ScanOutcome × Desk) := do
  let metrics ← desk.metrics.countLogged (Metrics.failures kind)
  Log.error e.code "Error in scanner task"
    [stateContext .failed, ("error", e.message), ("transient", toString e.isTransient)]
  return (.failed e, { desk with metrics })

/-- Ends a run with a stored result, which is logged. -/
def succeed (result : ScanResult) (desk : Desk) : Logged (ScanOutcome × Desk) := do
  Log.success .scanResultStored "Ending scanner task"
    [stateContext .stored, ("has_matches", toString result.hasMatches),
      ("matched_rules", toString result.matchedRules.length)]
  return (.stored result, desk)

/-- A run once its start has been logged. What validation has found out decides about the gate;
where it has found out nothing, what the upload says about itself does. -/
def proceed (engine : Engine) (files : Files) (stamp : Stamp) (validation : Json) (id : Nat)
    (desk : Desk) : Logged (ScanOutcome × Desk) := do
  let gate := validation.isExtension?
  if gate = some false then
    logSkipped "validation marked the upload as not a webextension"
    return (.skipped, desk)
  else
    match desk.store.upload id with
    | .error e => fail engine.kind (.store e) desk
    | .ok upload =>
      if gate.isNone && !upload.isExtension then
        logSkipped "upload is not a webextension"
        return (.skipped, desk)
      else
        match ← execute engine files stamp upload id desk with
        | (.ok result, desk) => succeed result desk
        | (.error e, desk) => fail engine.kind e desk

/-- Takes an upload to an engine. All events of the run name the scanner and the upload. -/
def run (engine : Engine) (files : Files) (stamp : Stamp) (validation : Json) (id : Nat)
    (desk : Desk) : Logged (ScanOutcome × Desk) :=
  Log.withScope ⟨engine.kind.name, toString id⟩ do
    Log.info "Starting scanner task" [stateContext .gateCheck]
    proceed engine files stamp validation id desk

end Submission

end PackageScan
