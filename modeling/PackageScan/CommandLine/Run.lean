import PackageScan.CommandLine.Console
import PackageScan.CommandLine.Report
import PackageScan.Settings.Environment

/-!
# Commands

`CommandLine.run` tells what a run of the program writes and how it exits, from its arguments, its
environment and the files at hand: with zero if all went well, with one if rules were rejected or
archives could not be scanned, and with two if the command could not be carried out.
-/

namespace PackageScan

namespace CommandLine

/-- What a run comes to. -/
structure Outcome where
  /-- The exit code. -/
  exit : Nat
  /-- The standard output. -/
  out : String := ""
  /-- The standard error. -/
  err : String := ""
  /-- The path and the content of the file that is written, if one is. -/
  written : Option (String × String) := none
  deriving DecidableEq, Repr

/-- Where and when a command is run. -/
structure Surroundings where
  /-- The files at hand. -/
  files : Files
  /-- The environment variables. -/
  environment : Environment := .empty
  /-- Seconds since the start of 1970. -/
  seconds : Nat := 0
  /-- What marks a result that is made. -/
  stamp : Stamp := {}

/-- How a command that has been carried out ends: whether all went well, and the file it writes. -/
structure Ending where
  /-- Has all gone well? -/
  well : Bool
  /-- The path and the content of the file that is written, if one is. -/
  written : Option (String × String) := none

/-! ### Rules -/

/-- Reads a file that a command needs. -/
def readInput (s : Surroundings) (path : String) : Except String String :=
  (s.files.readText path).mapError fun fault => s!"cannot read {path}: {fault.message}"

/-- Complains about a rejected rule file. -/
def reportRejected (path source : String) (e : CompilationError) : Session Unit := do
  Session.complain s!"{path}: {e.stage} error [{e.code.text}] {e.display}"
  Session.complain (e.diagnostic source)

/-- Compiles rule files one after another; those that are rejected are reported and left out. -/
def addRuleFiles (s : Surroundings) : List String → Compiler → Session (Except String Compiler)
  | [], c => return .ok c
  | path :: rest, c => do
    match readInput s path with
    | .error message => return .error message
    | .ok source =>
      let (outcome, c) ← Session.logged (c.addSource source)
      if let .error e := outcome then reportRejected path source e
      addRuleFiles s rest c

/-- Compiles rule files; the rule set, and how many files are rejected. -/
def compileRuleFiles (s : Surroundings) (paths : List String) :
    Session (Except String (RuleSet × Nat)) := do
  match ← addRuleFiles s paths { preferences := .ofEnvironment s.environment } with
  | .error message => return .error message
  | .ok c =>
    let rules ← Session.logged do
      Log.info "Rule files compiled"
        [("accepted", toString c.stats.accepted), ("rejected", toString c.stats.rejected),
          ("rules", toString c.stats.rules)]
      c.build
    return .ok (rules, c.stats.rejected)

/-- Carries out the command that checks rule files. -/
def check (s : Surroundings) (paths : List String) : Session (Except String Ending) := do
  match ← compileRuleFiles s paths with
  | .error message => return .error message
  | .ok (rules, rejected) =>
    Session.print s!"Files: {paths.length}"
    Session.print s!"Rejected: {rejected}"
    Session.print s!"Rules: {rules.rules.size}"
    Session.print "Duration: 0.00s"
    return .ok { well := rejected == 0 }

/-! ### Reports -/

/-- Writes a report to a file, or to the standard output where none is named. -/
def writeReport (s : Surroundings) (report : Json) (output : Option String) :
    Session (Except String (Option (String × String))) := do
  let text := report.renderPretty 0
  match output with
  | none =>
    Session.print text
    return .ok none
  | some path =>
    match s.files.writeFault? path with
    | some fault => return .error fault.message
    | none =>
      Session.complain s!"[OK] Results saved to: {path}"
      return .ok (some (path, text))

/-! ### Scanning -/

/-- The extension of a file name: what follows its last dot, unless that is its first
character. -/
def extension? (name : String) : Option String :=
  match (name.toList.splitOn '.').reverse with
  | last :: before :: more =>
    if before.isEmpty && more.isEmpty then none else some (String.ofList last)
  | _ => none

/-- Does the path name an archive? -/
def namesArchive (path : String) : Bool :=
  match extension? (Files.split path).2 with
  | some e => e.toLower == "zip" || e.toLower == "xpi"
  | none => false

/-- The order of paths, by their components. -/
def pathLe (a b : String) : Bool :=
  !(Files.components b).lex (Files.components a) fun x y => decide (x < y)

/-- The archives to scan: the target, or all archives in a directory in the order of their
paths. -/
def archivesAt (files : Files) (target : String) : List String :=
  match files target with
  | some (.directory children) =>
    (((FileNode.filesIn target children).map Prod.fst).filter namesArchive).mergeSort pathLe
  | _ => [target]

/-- Scans an archive and reports on it. -/
def reportOn (s : Surroundings) (rules : RuleSet) (path : String) : Logged ArchiveReport := do
  let outcome ← sweepArchive rules s.files path {}
  if let .error e := outcome then
    Log.error e.code "Archive scan failed" [("path", path), ("error", e.message)]
  return .ofSweep path outcome

/-- Scans archives one after another and reports on each of them. -/
def reportOnAll (s : Surroundings) (rules : RuleSet) :
    List String → Session (List ArchiveReport)
  | [] => return []
  | path :: rest => do
    let report ← Session.logged (reportOn s rules path)
    return report :: (← reportOnAll s rules rest)

/-- Carries out the command that scans archives. -/
def scan (s : Surroundings) (rulePaths : List String) (target : String)
    (output : Option String) : Session (Except String Ending) := do
  match ← compileRuleFiles s rulePaths with
  | .error message => return .error message
  | .ok (rules, rejected) =>
    let archives := archivesAt s.files target
    Session.logged do
      if rules.rules.isEmpty then
        Log.warning "No rules compiled, every archive will scan clean"
      Log.info "Discovered archives"
        [("count", toString archives.length), ("target", target)]
    let reports ← reportOnAll s rules archives
    let failed := (reports.filter fun r => r.error.isSome).length
    let matching := (reports.filter fun r => !r.found.isEmpty).length
    match ← writeReport s (.arr (reports.map ArchiveReport.toJson)) output with
    | .error message => return .error message
    | .ok written =>
      Session.logged <| Log.success .archiveScanned "Scan completed"
        [("archives", toString reports.length), ("with_matches", toString matching),
          ("failed", toString failed), ("duration_ms", "0")]
      return .ok { well := failed == 0 && rejected == 0, written }

/-! ### Query rules -/

/-- The desk on which a query rule is run: it holds that rule and one version. -/
def queryDesk (definition archive : String) (action : RuleAction) : Desk where
  store :=
    { queryRules :=
        [⟨{ id := 1, name := "query", scanner := .yara, definition := some definition,
            isActive := true }, action⟩]
      versions := [⟨1, 1, archive⟩] }
  metrics := { announced := true }

/-- Carries out the command that runs a query rule. -/
def query (s : Surroundings) (rulePath actionName archive : String) (output : Option String) :
    Session (Except String Ending) := do
  match RuleAction.parse? actionName with
  | none => return .error s!"unknown action '{actionName}'"
  | some action =>
    match readInput s rulePath with
    | .error message => return .error message
    | .ok definition =>
      let bench : Rescan.Bench :=
        { files := s.files, preferences := .ofEnvironment s.environment, limits := {} }
      let (outcome, desk) ← Session.logged <|
        Rescan.run bench s.stamp 1 1 (queryDesk definition archive action)
      let report := QueryReport.ofOutcome outcome (desk.dispatcher.dispatched.map Prod.fst)
      match ← writeReport s report.toJson output with
      | .error message => return .error message
      | .ok written => return .ok { well := report.error.isNone, written }

/-! ### Runs -/

/-- Carries out a command. -/
def carryOut (s : Surroundings) : Command → Session (Except String Ending)
  | .check rules => check s rules
  | .scan rules target output => scan s rules target output
  | .query rule action archive output => query s rule action archive output

/-- Carries out a command; that it could not be carried out is logged and written. -/
def finish (s : Surroundings) (command : Command) : Session Outcome := do
  match ← carryOut s command with
  | .ok ending => return { exit := if ending.well then 0 else 1, written := ending.written }
  | .error message =>
    Session.logged (Log.error .configurationError "Command failed" [("error", message)])
    Session.complain s!"Error: {message}"
    return { exit := 2 }

/-- The console of an invocation, with the log as asked for. -/
def consoleFor (s : Surroundings) (i : Invocation) (least : Level) : Console where
  format := i.format
  seconds := s.seconds
  journal :=
    { least
      preferences :=
        { LogPreferences.ofEnvironment s.environment with
          structured := i.format = .json
          least } }

/-- Runs an invocation. -/
def Invocation.run (i : Invocation) (s : Surroundings) : Outcome :=
  match Level.parse? i.level with
  | none => { exit := 2, err := s!"Error: unknown log level '{i.level}'\n" }
  | some least =>
    let (outcome, console) := (finish s i.command).run (consoleFor s i least)
    { outcome with out := Console.textOf console.out, err := Console.textOf console.err }

end CommandLine

end PackageScan
