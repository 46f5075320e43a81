import PackageScan.CommandLine.Run

/-!
# Help

What is written when no command is run: help, the version, or what is wrong with the arguments.

Brief help has one line for each argument, and what is said about them starts in one column. Full
help says it on lines of its own, which are indented, and lists the values that an option may have.
-/

namespace PackageScan

namespace CommandLine

/-- What help says about an argument. -/
structure ArgumentHelp where
  /-- How it is written. -/
  usage : String
  /-- What it is for; perhaps nothing is said. -/
  about : String
  /-- What it is when it is not given. -/
  default : Option String := none
  /-- The values it may have, each with what is said about it. -/
  choices : List (String × Option String) := []
  deriving DecidableEq, Repr

namespace ArgumentHelp

/-- The note on what an argument is when it is not given. -/
def defaultNote (a : ArgumentHelp) : List String :=
  a.default.toList.map fun value => s!"[default: {value}]"

/-- The note on the values that an argument may have. -/
def choiceNote (a : ArgumentHelp) : List String :=
  if a.choices.isEmpty then []
  else ["[possible values: " ++ ", ".intercalate (a.choices.map Prod.fst) ++ "]"]

/-- One line, in which what is said starts at the given column. -/
def brief (column : Nat) (a : ArgumentHelp) : List String :=
  let notes := (if a.about.isEmpty then [] else [a.about]) ++ a.defaultNote ++ a.choiceNote
  [a.usage.pushn ' ' (column - a.usage.length) ++ " ".intercalate notes]

/-- The indentation of full help. -/
def margin : String := "          "

/-- The lines on the values that an argument may have. -/
def choiceLines (a : ArgumentHelp) : List String :=
  let width := (a.choices.map fun c => c.1.length).foldl max 0
  a.choices.map fun (name, about) =>
    match about with
    | none => s!"{margin}- {name}"
    | some about => (s!"{margin}- {name}: ").pushn ' ' (width - name.length) ++ about

/-- Several lines, in which what is said is indented. -/
def full (a : ArgumentHelp) : List String :=
  [a.usage, margin ++ a.about] ++ (a.defaultNote.flatMap fun note => [margin, margin ++ note]) ++
    (if a.choices.isEmpty then [] else ["", margin ++ "Possible values:"] ++ a.choiceLines)

end ArgumentHelp

/-- A list of arguments under a title. -/
def argumentLines (detail : HelpDetail) (title : String) (arguments : List ArgumentHelp) :
    List String :=
  if arguments.isEmpty then []
  else
    let column := (arguments.map fun a => a.usage.length).foldl max 0 + 2
    ["", title ++ ":"] ++
      match detail with
      | .brief => arguments.flatMap (ArgumentHelp.brief column)
      | .full => List.intercalate [""] (arguments.map ArgumentHelp.full)

/-! ### Arguments -/

/-- The option that sets how log events are written. -/
def logFormatHelp : ArgumentHelp where
  usage := "      --log-format <LOG_FORMAT>"
  about := "How log events are written"
  default := some "console"
  choices :=
    [("console", none), ("json", none),
      ("facade", some "Forward to the `log` facade through env_logger")]

/-- The option that sets which log events are written. -/
def logLevelHelp : ArgumentHelp where
  usage := "      --log-level <LOG_LEVEL>"
  about := "error, warning, info or debug"
  default := some "warning"

/-- The option that asks for help. -/
def helpHelp : HelpDetail → ArgumentHelp
  | .brief => ⟨"  -h, --help", "Print help (see more with '--help')", none, []⟩
  | .full => ⟨"  -h, --help", "Print help (see a summary with '-h')", none, []⟩

/-- The option that sets where a report is written. -/
def outputHelp (about : String) : ArgumentHelp := ⟨"      --output <OUTPUT>", about, none, []⟩

/-- Help on all commands. -/
def rootHelp (detail : HelpDetail) : List String :=
  ["Extension package scanner", "", "Usage: xscan [OPTIONS] <COMMAND>", "", "Commands:",
    "  check  Compile rule files and report diagnostics",
    "  scan   Scan one archive, or every .zip/.xpi under a directory",
    "  query  Re-run a single query rule against a published archive",
    "  help   Print this message or the help of the given subcommand(s)"] ++
    argumentLines detail "Options"
      [logFormatHelp, logLevelHelp, helpHelp detail, ⟨"  -V, --version", "Print version", none, []⟩]

/-- Help on one command. -/
def commandHelp (detail : HelpDetail) : String → List String
  | "check" =>
    ["Compile rule files and report diagnostics", "", "Usage: xscan check [OPTIONS] <RULES>..."] ++
      argumentLines detail "Arguments" [⟨"  <RULES>...", "", none, []⟩] ++
      argumentLines detail "Options" [logFormatHelp, logLevelHelp, helpHelp detail]
  | "scan" =>
    ["Scan one archive, or every .zip/.xpi under a directory", "",
      "Usage: xscan scan [OPTIONS] --rules <RULES> <TARGET>"] ++
      argumentLines detail "Arguments" [⟨"  <TARGET>", "Archive file or directory", none, []⟩] ++
      argumentLines detail "Options"
        [logFormatHelp, ⟨"      --rules <RULES>", "", none, []⟩, logLevelHelp,
          outputHelp "Write JSON results here instead of stdout", helpHelp detail]
  | "query" =>
    ["Re-run a single query rule against a published archive", "",
      "Usage: xscan query [OPTIONS] --rule <RULE> <ARCHIVE>"] ++
      argumentLines detail "Arguments" [⟨"  <ARCHIVE>", "", none, []⟩] ++
      argumentLines detail "Options"
        [logFormatHelp, ⟨"      --rule <RULE>", "", none, []⟩,
          { usage := "      --action <ACTION>"
            about := "no_action, flag_for_human_review, delay_auto_approval or " ++
              "delay_auto_approval_indefinitely"
            default := some "no_action" },
          logLevelHelp, outputHelp "", helpHelp detail]
  | "help" =>
    ["Print this message or the help of the given subcommand(s)", "",
      "Usage: xscan help [COMMAND]..."] ++
      argumentLines .brief "Arguments"
        [⟨"  [COMMAND]...", "Print help for the subcommand(s)", none, []⟩]
  | _ => rootHelp detail

/-! ### Runs -/

/-- Lines, each with its end. -/
def textOfLines (ls : List String) : String := String.join (ls.map fun l => l ++ "\n")

/-- What is written when no command is run. -/
def Stop.outcome : Stop → Outcome
  | help none detail => { exit := 0, out := textOfLines (rootHelp detail) }
  | help (some command) detail => { exit := 0, out := textOfLines (commandHelp detail command) }
  | nothing => { exit := 2, err := textOfLines (rootHelp .brief) }
  | version => { exit := 0, out := "xscan 0.1.0\n" }
  | usage fault =>
    { exit := 2
      err := s!"error: {fault.message}\n\nFor more information, try '--help'.\n" }

/-- What a run of the program comes to. -/
def run (arguments : List String) (s : Surroundings) : Outcome :=
  match Invocation.parse arguments with
  | .ok invocation => invocation.run s
  | .error stop => stop.outcome

end CommandLine

end PackageScan
