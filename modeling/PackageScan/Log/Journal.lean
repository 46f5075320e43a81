import PackageScan.Log.Buffer
import PackageScan.Log.Message

/-!
# The journal of a run

Work that is logged runs in `Logged`, which threads a `Journal`: the events so far, the filter,
and the scan in progress. An event inside a scan carries the scanner and the target of that scan
unless it names its own; `withScope` puts one scan inside another and brings the outer one back.
-/

namespace PackageScan

/-- Choices about logging. -/
structure LogPreferences where
  /-- Write JSON objects in place of lines. -/
  structured : Bool := false
  /-- The least pressing level that is logged. -/
  least : Level := .info
  /-- Announce every compiled rule set. -/
  compilationSummary : Bool := true
  deriving DecidableEq, Repr

/-- The scan that is in progress. -/
structure Scope where
  /-- Name of the scanner. -/
  scanner : String
  /-- Name of what is scanned. -/
  target : String
  deriving DecidableEq, Repr

/-- What has been logged, and how. -/
structure Journal where
  /-- The filter that every event passes. -/
  least : Level := .debug
  /-- The choices about logging. -/
  preferences : LogPreferences := { least := .debug }
  /-- The scan in progress. -/
  scope : Option Scope := none
  /-- The events that have passed, the latest first. -/
  recorded : List Event := []

/-- Work that is logged. -/
abbrev Logged (α : Type) := StateM Journal α

namespace Journal

/-- The events in the order in which they were logged. -/
def events (j : Journal) : List Event := j.recorded.reverse

/-- Records an event if it passes the filter. -/
def record (j : Journal) (event : Event) : Journal :=
  if event.level.passes j.least then { j with recorded := event :: j.recorded } else j

/-- The named values that the scan in progress adds to an event. -/
def scopeContext (j : Journal) : List (String × String) :=
  match j.scope with
  | some scope => [("scanner", scope.scanner), ("target", scope.target)]
  | none => []

/-- Records an event with its message clamped, inside the scan in progress. -/
def emit (j : Journal) (event : Event) (context : List (String × String)) : Journal :=
  j.record ({ event with message := Message.clamp event.message }.withContext
    (j.scopeContext ++ context))

end Journal

namespace Log

/-- Logs an event with named values. -/
def emit (event : Event) (context : List (String × String)) : Logged Unit :=
  modify fun j => j.emit event context

/-- Logs an error. -/
def error (code : Code) (message : String) (context : List (String × String) := []) :
    Logged Unit :=
  emit (.error code message) context

/-- Logs an error about a part of a rule source. -/
def errorAt (code : Code) (message : String) (span : Span)
    (context : List (String × String) := []) : Logged Unit :=
  emit { Event.error code message with span := some span } context

/-- Logs a warning. -/
def warning (message : String) (context : List (String × String) := []) : Logged Unit :=
  emit (.warning message) context

/-- Logs a warning with a code. -/
def codedWarning (code : Code) (message : String) (context : List (String × String) := []) :
    Logged Unit :=
  emit (.codedWarning code message) context

/-- Logs an information. -/
def info (message : String) (context : List (String × String) := []) : Logged Unit :=
  emit (.info message) context

/-- Logs a success. -/
def success (code : Code) (message : String) (context : List (String × String) := []) :
    Logged Unit :=
  emit (.success code message) context

/-- Logs a debug event, provided that the preferences ask for that level too. -/
def debug (message : String) (context : List (String × String) := []) : Logged Unit :=
  modify fun j =>
    if Level.passes .debug j.preferences.least then j.emit (.debug message) context else j

/-- Records an error as it is, outside of any scan. -/
def errorPlainly (code : Code) (message : String) : Logged Unit :=
  modify fun j => j.record (.error code message)

/-- The scan in progress. -/
def scope : Logged (Option Scope) := do return (← get).scope

/-- Runs a scan inside the present one, which is in force again afterwards. -/
def withScope {α : Type} (scope : Scope) (work : Logged α) : Logged α := do
  let outer := (← get).scope
  modify fun j => { j with scope := some scope }
  let result ← work
  modify fun j => { j with scope := outer }
  return result

end Log

end PackageScan
