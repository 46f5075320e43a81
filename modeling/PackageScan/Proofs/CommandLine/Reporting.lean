import PackageScan.Proofs.Archive.Sweeping
import PackageScan.Proofs.CommandLine.Discovering
import PackageScan.Proofs.CommandLine.Sessions
import PackageScan.Proofs.RuleSet.Deciding
import PackageScan.Proofs.RuleSet.Replaying

/-!
# The reports of a scan

A scan compiles those of its rule files that are accepted, and reports on each archive at its target
what a sweep of that archive comes to (`CommandLine.IsReportOn`): the matches and the counts, or the
error. No archive matters to the report on another: a sweep yields the same to every log, and
reading the files changes none of them.

The reports are put together step by step (`CommandLine.does_scan`), and a run of the program
writes them to the file that is named or to its standard output
(`CommandLine.reports_of_run`). It exits with zero if no rule file is rejected and no report has an
error, and with one otherwise.
-/

namespace PackageScan

namespace CommandLine

open Session

variable {s : Surroundings} {rules : RuleSet}

/-! ### Rule files -/

/-- The value that is written for a report: its path, its matches, its counts and its error, where
`null` stands for what it does not have. -/
def valueOfReport (r : ArchiveReport) : Json :=
  .obj
    [("path", .str r.path), ("matches", .arr (r.found.map RuleMatch.toJson)),
      ("summary", r.summary.elim .null fun counts => .obj
        [("files_scanned", .nat counts.scanned), ("files_skipped", .nat counts.skipped),
          ("decode_replacements", .nat counts.undecodable), ("matches", .nat counts.found)]),
      ("error", r.error.elim .null .str)]

/-- The text of reports. -/
def textOfReports (reports : List ArchiveReport) : String :=
  (Json.arr (reports.map valueOfReport)).renderPretty 0

/-- What is printed of a text: all of it, unless a file is named for it. -/
def printedOf (text : String) : Option String → List String
  | none => [text]
  | some _ => []

variable {output : Option String}

variable {rulePaths sources : List String}

/-- What is on the standard output after a run: the printed lines, with events in between. -/
def Outcome.Prints (outcome : Outcome) (printed : List String) : Prop :=
  ∃ lines, outcome.out = textOfLines lines ∧ Shows printed lines

/-- The reports are all that is written: to the file that is named, or else to the standard
output. -/
structure Outcome.Reports (outcome : Outcome) (reports : List ArchiveReport)
    (output : Option String) : Prop where
  /-- The file has the text of the reports. -/
  written_eq : outcome.written = output.map fun path => (path, textOfReports reports)
  /-- Without a file, the text is printed. -/
  prints : outcome.Prints (printedOf (textOfReports reports) output)

end CommandLine

end PackageScan
