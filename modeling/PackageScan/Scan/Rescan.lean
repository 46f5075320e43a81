import PackageScan.Scan.Submission

/-!
# Running query rules on published versions

A rescan takes one published version to one query rule. The result is stored first; if there are
matches, the action of the rule is then taken on the version. A rescan whose action fails has
failed, though its result stays stored.

How an action is asked for is left open (`Rescan.Ask`); whoever is asked may look at the desk.
`Rescan.run` asks the dispatcher of the desk.
-/

namespace PackageScan

/-- How a rescan has ended. -/
inductive RescanOutcome where
  /-- With a result. -/
  | stored (result : QueryResult)
  /-- With a failure. -/
  | failed (e : ScanError)

namespace Rescan

/-- What the local rule engine needs apart from rules and packages. -/
structure Bench where
  /-- The files at hand. -/
  files : Files
  /-- Choices about compiling. -/
  preferences : CompilerPreferences
  /-- Bounds on packages. -/
  limits : ArchiveLimits

/-- Matches a version with the source of a rule. -/
def findMatches (bench : Bench) (source : String) (version : Version) :
    Logged (Except ScanError (List RuleMatch)) := do
  match ← RuleSet.compileLogged bench.preferences source with
  | .error e => return .error (.compilation e)
  | .ok rules =>
    if bench.files.has version.path then
      Engine.sweepPackage rules bench.files version.path bench.limits
    else return .error (.targetNotFound version.path)

/-- A way to ask for an action on a version, at a desk: whether it has been taken, and the
dispatcher afterwards. -/
abbrev Ask := Desk → RuleAction → Version → Logged (Except ActionError Unit × Dispatcher)

/-- Asks the dispatcher of the desk. -/
def askDispatcher : Ask := fun desk action version => desk.dispatcher.dispatch action version

/-- Takes the action of a rule on a version if there are matches. -/
def followUp (ask : Ask) (rule : QueryRule) (version : Version) (result : QueryResult)
    (desk : Desk) : Logged (Except ScanError Unit × Desk) := do
  if result.hasMatches then
    match ← ask desk rule.action version with
    | (.error e, dispatcher) => return (.error (.action e), { desk with dispatcher })
    | (.ok (), dispatcher) =>
      Log.success .actionDispatched "Rule action dispatched"
        [("action", rule.action.name), ("version", toString version.id)]
      return (.ok (), { desk with dispatcher })
  else return (.ok (), desk)

/-- Stores matches and does what follows from them. -/
def settle (ask : Ask) (stamp : Stamp) (rule : QueryRule) (version : Version)
    (found : List RuleMatch) (desk : Desk) : Logged (Except ScanError QueryResult × Desk) := do
  let result := QueryResult.create stamp version.id rule.rule.id found
  match desk.store.storeQueryResult result with
  | .error e => return (.error (.store e), desk)
  | .ok store =>
    Log.success .queryResultStored "Query result stored"
      [("query_rule", toString rule.rule.id), ("matches", toString found.length)]
    let (outcome, desk) ← followUp ask rule version result { desk with store }
    return (outcome.map fun _ => result, desk)

/-- Looks up the rule and the version, and runs the one on the other. -/
def execute (ask : Ask) (bench : Bench) (stamp : Stamp) (ruleId versionId : Nat) (desk : Desk) :
    Logged (Except ScanError QueryResult × Desk) := do
  match desk.store.queryRule ruleId with
  | .error e => return (.error (.store e), desk)
  | .ok rule =>
    match desk.store.version versionId with
    | .error e => return (.error (.store e), desk)
    | .ok version =>
      let answer ← findMatches bench (rule.rule.definition.getD "") version
      let metrics ← desk.metrics.timeLogged (Metrics.timer .yara)
      let desk := { desk with metrics }
      match answer with
      | .error e => return (.error e, desk)
      | .ok found => settle ask stamp rule version found desk

/-- Takes a version to a query rule. All events of the rescan name the version. -/
def runAsking (ask : Ask) (bench : Bench) (stamp : Stamp) (ruleId versionId : Nat) (desk : Desk) :
    Logged (RescanOutcome × Desk) :=
  Log.withScope ⟨ScannerKind.yara.name, s!"version:{versionId}"⟩ do
    Log.info "Starting query rule task" [("query_rule", toString ruleId)]
    match ← execute ask bench stamp ruleId versionId desk with
    | (.ok result, desk) =>
      let metrics ← desk.metrics.countLogged Metrics.querySuccesses
      return (.stored result, { desk with metrics })
    | (.error e, desk) =>
      let metrics ← desk.metrics.countLogged Metrics.queryFailures
      Log.error e.code "Error in query rule task"
        [("query_rule", toString ruleId), ("error", e.message),
          ("transient", toString e.isTransient)]
      return (.failed e, { desk with metrics })

/-- Takes a version to a query rule and asks the dispatcher of the desk for what follows. -/
def run (bench : Bench) (stamp : Stamp) (ruleId versionId : Nat) (desk : Desk) :
    Logged (RescanOutcome × Desk) :=
  runAsking askDispatcher bench stamp ruleId versionId desk

end Rescan

end PackageScan
