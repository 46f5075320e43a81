import PackageScan.Scan.Rescan

/-!
# Reports

The results of commands, as they are written as JSON.
-/

namespace PackageScan

namespace CommandLine

/-- What scanning one archive has come to: a summary with matches, or an error. -/
structure ArchiveReport where
  /-- Where the archive is. -/
  path : String
  /-- The matches. -/
  found : List RuleMatch
  /-- What has been counted. -/
  summary : Option Sweep.Summary
  /-- What has gone wrong. -/
  error : Option String
  deriving DecidableEq, Repr

namespace ArchiveReport

/-- The report on an archive from what a sweep of it has come to. -/
def ofSweep (path : String) : Except ArchiveError Sweep → ArchiveReport
  | .ok sweep => ⟨path, sweep.found, some sweep.summary, none⟩
  | .error e => ⟨path, [], none, some e.message⟩

/-- The report as JSON. -/
def toJson (r : ArchiveReport) : Json :=
  .obj
    [("path", .str r.path), ("matches", .arr (r.found.map RuleMatch.toJson)),
      ("summary", Json.ofOption Sweep.Summary.toJson r.summary),
      ("error", Json.ofOption .str r.error)]

end ArchiveReport

/-- What running a query rule on an archive has come to. -/
structure QueryReport where
  /-- The result. -/
  result : Option QueryResult
  /-- The actions taken. -/
  dispatched : List RuleAction
  /-- What has gone wrong. -/
  error : Option String
  deriving DecidableEq, Repr

namespace QueryReport

/-- The report on how a rescan has ended. -/
def ofOutcome (outcome : RescanOutcome) (dispatched : List RuleAction) : QueryReport :=
  match outcome with
  | .stored result => ⟨some result, dispatched, none⟩
  | .failed e => ⟨none, dispatched, some e.message⟩

/-- The report as JSON. -/
def toJson (r : QueryReport) : Json :=
  .obj
    [("result", Json.ofOption QueryResult.toJson r.result),
      ("dispatched", .arr (r.dispatched.map RuleAction.toJson)),
      ("error", Json.ofOption .str r.error)]

end QueryReport

end CommandLine

end PackageScan
