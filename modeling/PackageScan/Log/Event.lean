import PackageScan.Json.Basic
import PackageScan.Log.Code
import PackageScan.Source.Position

/-!
# Log events

An event has a level, a code, a message, perhaps the span of rule source it is about, and a
context of named values in the order of their names. It has two written forms: a single line
(`Event.render`) and a JSON object (`Event.renderJson`).
-/

namespace PackageScan

/-- The level of an event, the most pressing first. -/
inductive Level where
  | error
  | warning
  | info
  | debug
  deriving DecidableEq, Repr, Inhabited

namespace Level

/-- Position in the order of urgency, errors at zero. -/
def rank : Level → Nat
  | error => 0
  | warning => 1
  | info => 2
  | debug => 3

/-- The label that lines and JSON objects carry. -/
def label : Level → String
  | error => "ERROR"
  | warning => "WARN"
  | info => "INFO"
  | debug => "DEBUG"

/-- The name used in settings. -/
def name : Level → String
  | error => "error"
  | warning => "warning"
  | info => "info"
  | debug => "debug"

/-- The level with exactly the given name. -/
def ofName? : String → Option Level
  | "error" => some error
  | "warning" => some warning
  | "info" => some info
  | "debug" => some debug
  | _ => none

/-- The level that a person may have meant: letters of either case, and the short name of
warnings. -/
def parse? (text : String) : Option Level :=
  let word := text.toLower
  if word == "warn" then some warning else ofName? word

/-- Does an event of this level pass a filter set to `least`? -/
def passes (level least : Level) : Bool := level.rank ≤ least.rank

end Level

/-- A log event. -/
structure Event where
  /-- How pressing it is. -/
  level : Level
  /-- Its code. -/
  code : Code
  /-- What has happened. -/
  message : String
  /-- The part of a rule source it is about. -/
  span : Option Span := none
  /-- Named values. -/
  context : Dictionary String := []
  /-- Seconds since the start of 1970. -/
  timestamp : Int := 0
  deriving DecidableEq, Repr

namespace Event

/-- An error. -/
def error (code : Code) (message : String) : Event := { level := .error, code, message }

/-- A warning without a code of its own. -/
def warning (message : String) : Event := { level := .warning, code := .plainWarning, message }

/-- A warning with a code. -/
def codedWarning (code : Code) (message : String) : Event :=
  { level := .warning, code, message }

/-- An information. -/
def info (message : String) : Event := { level := .info, code := .plainInfo, message }

/-- An information that carries a success code. -/
def success (code : Code) (message : String) : Event := { level := .info, code, message }

/-- A debug event. -/
def debug (message : String) : Event := { level := .debug, code := .plainDebug, message }

/-- Sets named values, one after another. -/
def withContext (event : Event) (pairs : List (String × String)) : Event :=
  { event with context := event.context.insertAll pairs }

/-- The event on a single line. -/
def render (event : Event) : String :=
  let place := match event.span with
    | some span => " at " ++ span.start.render
    | none => ""
  let context :=
    if event.context.isEmpty then ""
    else " (" ++ ", ".intercalate (event.context.map fun (k, v) => k ++ "=" ++ v) ++ ")"
  s!"[{event.level.label}] {event.code.text} - {event.message}{place}{context}"

/-- The event as a JSON object. Errors also say whether work can go on and what their code
means; a time before 1970 counts as its start. -/
def toJson (event : Event) : Json :=
  let common : List (String × Json) :=
    [("timestamp", .nat event.timestamp.toNat), ("level", .str event.level.label),
      ("code", .str event.code.text), ("message", .str event.message),
      ("category", .str event.code.category), ("severity", .str event.code.severity.name)]
  let failure :=
    if event.level = .error then
      [("error_metadata", Json.mkObj
        [("recoverable", .bool event.code.isRecoverable),
          ("description", .str event.code.description)])]
    else []
  let place := match event.span with
    | some span =>
      [("span", Json.mkObj
        [("start_line", .nat span.start.line), ("start_column", .nat span.start.column),
          ("end_line", .nat span.stop.line), ("end_column", .nat span.stop.column)])]
    | none => []
  let context :=
    if event.context.isEmpty then []
    else [("context", Json.obj (event.context.map fun (k, v) => (k, Json.str v)))]
  Json.mkObj (common ++ failure ++ place ++ context)

/-- The JSON text of an event. -/
def renderJson (event : Event) : String := event.toJson.render

end Event

end PackageScan
