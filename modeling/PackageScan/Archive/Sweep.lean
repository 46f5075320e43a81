import PackageScan.Archive.Basic
import PackageScan.RuleSet.Basic

/-!
# Sweeping an archive with a rule set

A sweep matches the content of one entry after another. Each match is labelled with the name of
the entry in which it was found. An entry that cannot be read is logged and counted; content that
is not UTF-8 is matched as it is, and a warning says so.

`sweepArchive` opens an archive, sweeps it and closes it.
-/

namespace PackageScan

/-- The meta key under which a match carries the name of its entry. -/
def RuleMatch.entryKey : String := "filename"

/-- A match labelled with the name of the entry it was found in. -/
def RuleMatch.inEntry (m : RuleMatch) (name : String) : RuleMatch :=
  { m with metaData := m.metaData.insert RuleMatch.entryKey name }

/-- The name of the entry that a match was found in. -/
def RuleMatch.entry? (m : RuleMatch) : Option String := m.metaData.find? RuleMatch.entryKey

/-- What a sweep has counted. -/
structure Sweep.Summary where
  /-- Entries that were matched. -/
  scanned : Nat := 0
  /-- Entries that could not be read. -/
  skipped : Nat := 0
  /-- Entries that are not UTF-8. -/
  undecodable : Nat := 0
  /-- Matches. -/
  found : Nat := 0
  deriving DecidableEq, Repr

/-- The counts as JSON. -/
def Sweep.Summary.toJson (s : Sweep.Summary) : Json :=
  .obj
    [("files_scanned", .nat s.scanned), ("files_skipped", .nat s.skipped),
      ("decode_replacements", .nat s.undecodable), ("matches", .nat s.found)]

/-- What a sweep has found. -/
structure Sweep where
  /-- The matches in the order of the entries, those of one entry in the order of the rules. -/
  found : List RuleMatch := []
  /-- What has been counted. -/
  summary : Sweep.Summary := {}
  deriving DecidableEq, Repr

namespace Sweep

/-- The matches in the content of an entry. -/
def matchesIn (rules : RuleSet) (file : ArchiveFile) : List RuleMatch :=
  (rules.scan file.content).map fun m => m.inEntry file.name

/-- Adds the content of an entry. -/
def add (rules : RuleSet) (s : Sweep) (file : ArchiveFile) : Sweep :=
  let new := matchesIn rules file
  let replaced := if Utf8.isWellFormed file.content then 0 else 1
  { found := s.found ++ new
    summary :=
      { s.summary with
        scanned := s.summary.scanned + 1
        undecodable := s.summary.undecodable + replaced
        found := s.summary.found + new.length } }

/-- Counts an entry that cannot be read. -/
def skip (s : Sweep) : Sweep :=
  { s with summary := { s.summary with skipped := s.summary.skipped + 1 } }

/-- Adds the content of an entry and warns if it is not UTF-8. -/
def addLogged (rules : RuleSet) (s : Sweep) (file : ArchiveFile) : Logged Sweep := do
  if !Utf8.isWellFormed file.content then
    Log.codedWarning .decodeReplacement "Entry is not valid UTF-8; matched as raw bytes"
      [("entry", file.name)]
  return s.add rules file

/-- Adds what was read from an archive, up to an error of the archive as a whole. What has been
added before the error is kept. -/
def addAll (rules : RuleSet) :
    List (Except ArchiveError ArchiveFile) → Sweep → Logged (Sweep × Except ArchiveError Unit)
  | [], s => return (s, .ok ())
  | .ok file :: rest, s => do addAll rules rest (← s.addLogged rules file)
  | .error e :: rest, s =>
    if e.isEntryError then do
      Log.error e.code "Skipping unreadable archive entry" [("error", e.message)]
      addAll rules rest s.skip
    else return (s, .error e)

/-- Are there matches? -/
def hasMatches (s : Sweep) : Bool := !s.found.isEmpty

/-- The names of the rules that match somewhere. -/
def ruleNames (s : Sweep) : NameSet := NameSet.ofList (s.found.map RuleMatch.rule)

end Sweep

/-- Sweeps the archive at a path. -/
def sweepArchive (rules : RuleSet) (files : Files) (path : String) (limits : ArchiveLimits) :
    Logged (Except ArchiveError Sweep) := do
  match ← Archive.openAt files path limits with
  | .error e => return .error e
  | .ok archive =>
    let (contents, archive) := archive.files
    let (s, outcome) ← Sweep.addAll rules contents {}
    archive.close
    match outcome with
    | .error e => return .error e
    | .ok () =>
      Log.success .archiveScanned "Archive scanned"
        [("archive", path), ("files", toString s.summary.scanned),
          ("skipped", toString s.summary.skipped), ("matches", toString s.summary.found)]
      return .ok s

end PackageScan
