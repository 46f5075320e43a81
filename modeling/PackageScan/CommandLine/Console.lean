import PackageScan.CommandLine.Arguments
import PackageScan.Log.Journal
import PackageScan.Time.Timestamp

/-!
# The console

A command writes lines to the standard output and to the standard error. Log events that come up
are written at once, errors to the standard error and all others to the standard output; in one
format all of them go to the standard error.
-/

namespace PackageScan

namespace CommandLine

/-- What a command has written so far, and how it logs. -/
structure Console where
  /-- How log events are written. -/
  format : LogFormat := .console
  /-- When the command has been started: seconds since the start of 1970. -/
  seconds : Nat := 0
  /-- The log, from which events are taken as soon as they are written. -/
  journal : Journal := {}
  /-- The standard output, the latest line first. -/
  out : List String := []
  /-- The standard error, the latest line first. -/
  err : List String := []

/-- Work of a command. -/
abbrev Session (α : Type) := StateM Console α

namespace Console

/-- Writes a line to the standard output. -/
def printLine (line : String) (c : Console) : Console := { c with out := line :: c.out }

/-- Writes a line to the standard error. -/
def printError (line : String) (c : Console) : Console := { c with err := line :: c.err }

/-- A line under which further lines of the same event are moved to the right. -/
def indented (line : String) : String := "\n    ".intercalate (line.splitOn "\n")

/-- An event as a line that tells the time. -/
def timedLine (seconds : Nat) (event : Event) : String :=
  let label := event.level.label
  let padding := "".pushn ' ' (5 - label.length)
  s!"[{(Timestamp.ofUnix seconds 0).render} {label}{padding} xscan] {indented event.render}"

/-- Writes an event. -/
def writeEvent (c : Console) (event : Event) : Console :=
  match c.format with
  | .facade => c.printError (timedLine c.seconds event)
  | format =>
    let line :=
      if format = .json then { event with timestamp := c.seconds }.renderJson else event.render
    if event.level = .error then c.printError line else c.printLine line

/-- Writes the events of a journal and takes them out. -/
def flush (c : Console) (journal : Journal) : Console :=
  { journal.events.foldl writeEvent c with journal := { journal with recorded := [] } }

/-- The text of lines, the latest of which comes first. -/
def textOf (lines : List String) : String := String.join (lines.reverse.map fun l => l ++ "\n")

end Console

namespace Session

/-- Writes a line to the standard output. -/
def print (line : String) : Session Unit := modify (Console.printLine line)

/-- Writes a line to the standard error. -/
def complain (line : String) : Session Unit := modify (Console.printError line)

/-- Does logged work and writes its events. -/
def logged {α : Type} (work : Logged α) : Session α := fun c =>
  let (result, journal) := work.run c.journal
  (result, c.flush journal)

end Session

end CommandLine

end PackageScan
