import PackageScan.Log.Journal
import PackageScan.Scan.Rule
import PackageScan.Scan.Upload

/-!
# Follow-up actions

A query rule is run against published versions and names an action to take on those that match.
A `Dispatcher` takes the actions; it keeps every attempt, also those that it refuses while it is
out of order.
-/

namespace PackageScan

/-- What to do about a version that matches. -/
inductive RuleAction where
  | noAction
  | flagForHumanReview
  | delayAutoApproval
  | delayAutoApprovalIndefinitely
  deriving DecidableEq, Repr

namespace RuleAction

/-- All actions. -/
def all : List RuleAction :=
  [noAction, flagForHumanReview, delayAutoApproval, delayAutoApprovalIndefinitely]

/-- The name of an action. -/
def name : RuleAction → String
  | noAction => "no_action"
  | flagForHumanReview => "flag_for_human_review"
  | delayAutoApproval => "delay_auto_approval"
  | delayAutoApprovalIndefinitely => "delay_auto_approval_indefinitely"

/-- The action with exactly the given name. -/
def ofName? (name : String) : Option RuleAction := all.find? fun action => action.name == name

/-- The action with the given name, in which hyphens may stand for underscores. -/
def parse? (name : String) : Option RuleAction :=
  ofName? (name.map fun c => if c = '-' then '_' else c)

/-- The action as JSON. -/
def toJson (action : RuleAction) : Json := .str action.name

/-- The action that a JSON value stands for. -/
def ofJson? (j : Json) : Option RuleAction := Json.choice? ofName? j

end RuleAction

/-- A rule that is run against published versions. -/
structure QueryRule where
  /-- The rule. -/
  rule : StoredRule
  /-- What to do about versions that match. -/
  action : RuleAction
  deriving DecidableEq, Repr

/-- The query rule as JSON. -/
def QueryRule.toJson (q : QueryRule) : Json :=
  Json.obj [("rule", q.rule.toJson), ("action", q.action.toJson)]

/-- Why an action has not been taken. -/
structure ActionError where
  /-- The action. -/
  action : RuleAction
  /-- The version it was meant for. -/
  version : Nat
  /-- What went wrong. -/
  reason : String
  deriving DecidableEq, Repr

namespace ActionError

/-- The error in words. -/
def message (e : ActionError) : String :=
  s!"action {e.action.name} failed for version {e.version}: {e.reason}"

/-- The code under which the error is logged. -/
def code (_ : ActionError) : Code := .actionFailure

end ActionError

/-- An action that a dispatcher was asked to take. -/
structure DispatchAttempt where
  /-- The action. -/
  action : RuleAction
  /-- The version it is meant for. -/
  version : Nat
  /-- Has it been taken? -/
  taken : Bool
  deriving DecidableEq, Repr

/-- Takes follow-up actions. -/
structure Dispatcher where
  /-- Why actions cannot be taken at present, if they cannot. -/
  outage : Option String := none
  /-- What it was asked to do, in order. -/
  attempts : List DispatchAttempt := []
  deriving DecidableEq, Repr

namespace Dispatcher

/-- The actions taken, each with the version, in order. -/
def dispatched (d : Dispatcher) : List (RuleAction × Nat) :=
  (d.attempts.filter DispatchAttempt.taken).map fun a => (a.action, a.version)

/-- The dispatcher after it has been asked to take an action, and whether it has refused. -/
def step (d : Dispatcher) (action : RuleAction) (version : Version) :
    Except ActionError Unit × Dispatcher :=
  let after : Dispatcher :=
    { d with attempts := d.attempts ++ [⟨action, version.id, d.outage.isNone⟩] }
  match d.outage with
  | some reason => (.error ⟨action, version.id, reason⟩, after)
  | none => (.ok (), after)

/-- Asks the dispatcher to take an action, and logs that it does. -/
def dispatch (d : Dispatcher) (action : RuleAction) (version : Version) :
    Logged (Except ActionError Unit × Dispatcher) := do
  if d.outage.isNone then
    Log.info "Recording rule action"
      [("action", action.name), ("version", toString version.id),
        ("addon", toString version.addon)]
  return d.step action version

end Dispatcher

end PackageScan
