import PackageScan.Dictionary
import PackageScan.Log.Journal
import PackageScan.Scan.Kind

/-!
# Metrics

Counters and timings under names. A metric is kept (`Metrics.count`, `Metrics.time`); where
metrics are announced, the log tells of each of them as well.
-/

namespace PackageScan

/-- Counters and timings. -/
structure Metrics where
  /-- How often each counter has been raised. -/
  counters : Dictionary Nat := []
  /-- How many durations each timer has been given. -/
  timings : Dictionary Nat := []
  /-- Does the log tell of every metric? -/
  announced : Bool := false
  deriving DecidableEq, Repr

namespace Metrics

/-! ### Names -/

/-- The timer of a scanner. -/
def timer (kind : ScannerKind) : String := s!"devhub.{kind.name}"

/-- The counter of what happens to runs of a scanner. -/
def counter (kind : ScannerKind) (event : String) : String := s!"devhub.{kind.name}.{event}"

/-- The counter of the runs of a scanner that end well. -/
def successes (kind : ScannerKind) : String := counter kind "success"

/-- The counter of the runs of a scanner that fail. -/
def failures (kind : ScannerKind) : String := counter kind "failure"

/-- The counter of the runs of a scanner with matches. -/
def matchings (kind : ScannerKind) : String := counter kind "has_matches"

/-- The counter of the runs in which a rule matches. -/
def ruleCounter (kind : ScannerKind) (rule : Nat) : String :=
  s!"devhub.{kind.name}.rule.{rule}.match"

/-- The counter of the runs of query rules that end well. -/
def querySuccesses : String := "scanners.run_yara_query_rule_on_version.success"

/-- The counter of the runs of query rules that fail. -/
def queryFailures : String := "scanners.run_yara_query_rule_on_version.failure"

/-! ### Reading -/

/-- How often a counter has been raised. -/
def countOf (m : Metrics) (name : String) : Nat := (m.counters.find? name).getD 0

/-- How many durations a timer has been given. -/
def timingsOf (m : Metrics) (name : String) : Nat := (m.timings.find? name).getD 0

/-- Is there nothing at all? -/
def isEmpty (m : Metrics) : Bool := m.counters.isEmpty && m.timings.isEmpty

/-! ### Recording -/

/-- Raises a counter. -/
def count (m : Metrics) (name : String) : Metrics :=
  { m with counters := m.counters.insert name (m.countOf name + 1) }

/-- Gives a timer another duration. -/
def time (m : Metrics) (name : String) : Metrics :=
  { m with timings := m.timings.insert name (m.timingsOf name + 1) }

/-- Raises a counter, and announces that. -/
def countLogged (m : Metrics) (name : String) : Logged Metrics := do
  if m.announced then Log.debug "metric incremented" [("metric", name)]
  return m.count name

/-- Gives a timer another duration, and announces that. Durations are not kept, so the one that
is announced is zero. -/
def timeLogged (m : Metrics) (name : String) : Logged Metrics := do
  if m.announced then Log.debug "metric timing" [("metric", name), ("ms", "0")]
  return m.time name

/-- Raises counters one after another, and announces that. -/
def countAll : List String → Metrics → Logged Metrics
  | [], m => return m
  | name :: rest, m => do countAll rest (← m.countLogged name)

end Metrics

end PackageScan
