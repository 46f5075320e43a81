import PackageScan.Limits
import PackageScan.Log.Event

/-!
# Filter and buffer

A `Buffer` keeps the last `Limits.logBuffer` events it was given. A `Service` is a buffer with
a level filter before it.
-/

namespace PackageScan

/-- The latest events, the oldest first. -/
structure Buffer where
  /-- The events. -/
  events : Array Event := #[]

/-- Numbers of events by level. -/
structure Buffer.Summary where
  /-- All events. -/
  total : Nat
  /-- Errors. -/
  errors : Nat
  /-- Warnings. -/
  warnings : Nat
  /-- Informations. -/
  infos : Nat
  deriving DecidableEq, Repr

namespace Buffer

/-- The buffer without events. -/
def empty : Buffer := ⟨#[]⟩

/-- The events as a list, the oldest first. -/
def toList (b : Buffer) : List Event := b.events.toList

/-- Adds an event; as many of the oldest ones leave as are needed to make room for it. -/
def push (b : Buffer) (event : Event) : Buffer :=
  let size := b.events.size
  if Limits.logBuffer ≤ size then
    ⟨(b.events.extract (size - Limits.logBuffer + 1) size).push event⟩
  else ⟨b.events.push event⟩

/-- The buffer after a run of events. -/
def ofEvents (events : List Event) : Buffer := events.foldl push empty

/-- Numbers of buffered events by level. -/
def summary (b : Buffer) : Summary where
  total := b.events.size
  errors := b.toList.countP (·.level = .error)
  warnings := b.toList.countP (·.level = .warning)
  infos := b.toList.countP (·.level = .info)

/-- Does the buffer hold an error? -/
def Summary.hasErrors (s : Summary) : Bool := 0 < s.errors

/-- The events with the given code. -/
def withCode (b : Buffer) (code : Code) : List Event := b.toList.filter (·.code = code)

/-- Is there an error with the given code? -/
def hasErrorWithCode (b : Buffer) (code : Code) : Bool :=
  b.toList.any fun event => event.level = .error && event.code = code

/-- The events that have the given value in their context. -/
def withContext (b : Buffer) (key value : String) : List Event :=
  b.toList.filter fun event => event.context.find? key == some value

end Buffer

/-- A buffer behind a level filter. -/
structure Service where
  /-- The least pressing level that passes. -/
  least : Level
  /-- What has passed. -/
  buffer : Buffer := {}

namespace Service

/-- Does an event of the level pass? -/
def shouldLog (s : Service) (level : Level) : Bool := level.passes s.least

/-- Buffers an event if it passes the filter. -/
def log (s : Service) (event : Event) : Service :=
  if s.shouldLog event.level then { s with buffer := s.buffer.push event } else s

/-- Buffers an event whatever its level. -/
def logDirectly (s : Service) (event : Event) : Service :=
  { s with buffer := s.buffer.push event }

/-- Forgets all events. -/
def clear (s : Service) : Service := { s with buffer := .empty }

end Service

end PackageScan
