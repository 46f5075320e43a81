import PackageScan.Dictionary

/-!
# Arguments

The arguments name a command, after options that all commands share, and then what the command
works on. They are read from left to right, and the first one that makes no sense ends the
reading, as does a request for help.

An option is given with its value behind an equals sign or as the next argument. Two hyphens alone
make everything after them operands, and a single hyphen is one anyway.
-/

namespace PackageScan

namespace CommandLine

/-- How log events are written. -/
inductive LogFormat where
  /-- As lines. -/
  | console
  /-- As JSON objects. -/
  | json
  /-- As lines that tell the time as well, all of them apart from the results. -/
  | facade
  deriving DecidableEq, Repr

/-- The format with exactly the given name. -/
def LogFormat.ofName? : String → Option LogFormat
  | "console" => some console
  | "json" => some json
  | "facade" => some facade
  | _ => none

/-- What to do. -/
inductive Command where
  /-- Compile rule files. -/
  | check (rules : List String)
  /-- Compile rule files and scan an archive, or all archives in a directory. -/
  | scan (rules : List String) (target : String) (output : Option String)
  /-- Run a query rule on an archive. -/
  | query (rule action archive : String) (output : Option String)
  deriving DecidableEq, Repr

namespace Command

/-- The path whose directories are searched for archives, if there is one. -/
def target? : Command → Option String
  | scan _ target _ => some target
  | _ => none

/-- The paths of files that are read, the target apart. -/
def inputs : Command → List String
  | check rules => rules
  | scan rules _ _ => rules
  | query rule _ archive _ => [rule, archive]

/-- The path of the file that is written. -/
def output? : Command → Option String
  | check _ => none
  | scan _ _ output => output
  | query _ _ _ output => output

end Command

/-- What the arguments ask for. -/
structure Invocation where
  /-- How log events are written. -/
  format : LogFormat := .console
  /-- The name of the least pressing level that is logged. -/
  level : String := "warning"
  /-- What to do. -/
  command : Command
  deriving DecidableEq, Repr

/-- What is wrong with the arguments. -/
inductive UsageFault where
  | unexpected (argument : String)
  | unknownCommand (name : String)
  | noCommand
  | noValue (option : String)
  | badValue (value option : String)
  | repeated (option : String)
  | missing (name : String)
  deriving DecidableEq, Repr

/-- The fault in words. -/
def UsageFault.message : UsageFault → String
  | unexpected argument => s!"unexpected argument '{argument}' found"
  | unknownCommand name => s!"unrecognized subcommand '{name}'"
  | noCommand => "'xscan' requires a subcommand but one was not provided"
  | noValue option => s!"a value is required for '{option}' but none was supplied"
  | badValue value option => s!"invalid value '{value}' for '{option}'"
  | repeated option => s!"the argument '{option}' cannot be used multiple times"
  | missing name => s!"the following required arguments were not provided: {name}"

/-- How much help is given. -/
inductive HelpDetail where
  | brief
  | full
  deriving DecidableEq, Repr

/-- Why no command is run. -/
inductive Stop where
  /-- Help is asked for, perhaps about one command. -/
  | help (command : Option String) (detail : HelpDetail)
  /-- Nothing is given at all. -/
  | nothing
  /-- The version is asked for. -/
  | version
  /-- The arguments make no sense. -/
  | usage (fault : UsageFault)
  deriving DecidableEq, Repr

/-! ### Options and operands -/

/-- What a value of an option or an operand may be. -/
inductive ValueRule where
  /-- Any text. -/
  | any
  /-- A path, which has at least one character. -/
  | path
  /-- The name of a log format. -/
  | format
  deriving DecidableEq, Repr

/-- May this be a value? -/
def ValueRule.allows : ValueRule → String → Bool
  | any, _ => true
  | path, value => !value.isEmpty
  | format, value => (LogFormat.ofName? value).isSome

/-- An option. -/
structure OptionRule where
  /-- Its name, without hyphens. -/
  name : String
  /-- What its value may be. -/
  value : ValueRule
  /-- May it be given more than once? -/
  repeatable : Bool := false
  deriving DecidableEq, Repr

/-- What may be given in one place. -/
structure Grammar where
  /-- The command it belongs to, if it belongs to one. -/
  command : Option String
  /-- The options. -/
  options : List OptionRule
  /-- The largest number of operands, if there is one; none for the place before the command. -/
  operands : Option Nat
  deriving DecidableEq, Repr

/-- What has been given so far. -/
structure Given where
  /-- Options with their values, in order. -/
  options : List (String × String) := []
  /-- Operands, in order. -/
  operands : List String := []
  deriving DecidableEq, Repr

namespace Given

/-- Adds the value of an option. -/
def addOption (grammar : Grammar) (g : Given) (name value : String) : Except Stop Given :=
  match grammar.options.find? fun rule => rule.name == name with
  | none => .error (.usage (.unexpected ("--" ++ name)))
  | some rule =>
    if !rule.value.allows value then .error (.usage (.badValue value ("--" ++ name)))
    else if !rule.repeatable && (g.options.lookup name).isSome then
      .error (.usage (.repeated ("--" ++ name)))
    else .ok { g with options := g.options ++ [(name, value)] }

/-- Adds an operand; all of them are paths. -/
def addOperand (grammar : Grammar) (g : Given) (value : String) : Except Stop Given :=
  if grammar.operands.any fun most => most ≤ g.operands.length then
    .error (.usage (.unexpected value))
  else if value.isEmpty then .error (.usage (.badValue value "operand"))
  else .ok { g with operands := g.operands ++ [value] }

/-- All values of an option. -/
def valuesOf (g : Given) (name : String) : List String :=
  (g.options.filter fun o => o.1 == name).map Prod.snd

end Given

/-- An argument that is not an operand. -/
def isHyphenated (argument : String) : Bool := argument.startsWith "-" && argument != "-"

/-- The name of a long option, and its value if it is given with it. -/
def splitLong (argument : String) : String × Option String :=
  match (argument.toList.drop 2).splitOn '=' with
  | [name] => (String.ofList name, none)
  | name :: rest => (String.ofList name, some (String.ofList (['='].intercalate rest)))
  | [] => ("", none)

/-- What a short or long flag asks for. -/
def flagOf? (grammar : Grammar) (argument : String) : Option Stop :=
  if argument == "--help" then some (.help grammar.command .full)
  else if argument.startsWith "-h" then some (.help grammar.command .brief)
  else if grammar.command.isNone && (argument == "--version" || argument.startsWith "-V") then
    some .version
  else none

/-- Reads arguments up to the end, or up to the command where one is expected. -/
def readArguments (grammar : Grammar) : List String → Given → Except Stop (Given × List String)
  | [], g => .ok (g, [])
  | argument :: rest, g =>
    if !isHyphenated argument then
      if grammar.command.isNone then .ok (g, argument :: rest)
      else
        match g.addOperand grammar argument with
        | .ok g => readArguments grammar rest g
        | .error stop => .error stop
    else if argument == "--" then
      if grammar.command.isNone then
        match rest with
        | [] => .ok (g, [])
        | next :: _ => .error (.usage (.unexpected next))
      else do
        let g ← rest.foldlM (Given.addOperand grammar) g
        .ok (g, [])
    else
      match flagOf? grammar argument with
      | some stop => .error stop
      | none =>
        if !argument.startsWith "--" then .error (.usage (.unexpected argument))
        else
          match splitLong argument with
          | (name, some value) =>
            match g.addOption grammar name value with
            | .ok g => readArguments grammar rest g
            | .error stop => .error stop
          | (name, none) =>
            match rest with
            | [] => .error (.usage (.noValue argument))
            | value :: rest =>
              if isHyphenated value then .error (.usage (.noValue argument))
              else
                match g.addOption grammar name value with
                | .ok g => readArguments grammar rest g
                | .error stop => .error stop

/-! ### Commands -/

/-- The options that all commands share. -/
def sharedOptions : List OptionRule := [⟨"log-format", .format, false⟩, ⟨"log-level", .any, false⟩]

/-- What may be given before the command. -/
def rootGrammar : Grammar := ⟨none, sharedOptions, some 0⟩

/-- What may be given after the name of a command. -/
def commandGrammar? : String → Option Grammar
  | "check" => some ⟨some "check", sharedOptions, none⟩
  | "scan" =>
    some ⟨some "scan", sharedOptions ++ [⟨"rules", .path, true⟩, ⟨"output", .path, false⟩], some 1⟩
  | "query" =>
    some ⟨some "query", sharedOptions ++
      [⟨"rule", .path, false⟩, ⟨"action", .any, false⟩, ⟨"output", .path, false⟩], some 1⟩
  | _ => none

/-- The command with what has been given for it. -/
def commandOf (name : String) (g : Given) : Except Stop Command :=
  let lacks (what : String) : Except Stop Command := .error (.usage (.missing what))
  let output := (g.valuesOf "output").head?
  if name == "check" then
    if g.operands.isEmpty then lacks "<RULES>..." else .ok (.check g.operands)
  else if name == "scan" then
    match g.valuesOf "rules", g.operands with
    | [], _ => lacks "--rules <RULES>"
    | _, [] => lacks "<TARGET>"
    | rules, target :: _ => .ok (.scan rules target output)
  else
    match g.valuesOf "rule", g.operands with
    | [], _ => lacks "--rule <RULE>"
    | _, [] => lacks "<ARCHIVE>"
    | rule :: _, archive :: _ =>
      .ok (.query rule (((g.valuesOf "action").head?).getD "no_action") archive output)

/-- Help about a command, or about all of them. -/
def helpOn : List String → Stop
  | [] => .help none .full
  | name :: rest =>
    if name == "help" || (commandGrammar? name).isSome then
      match rest with
      | [] => .help (some name) .full
      | next :: _ => .usage (.unknownCommand next)
    else .usage (.unknownCommand name)

/-- What the arguments ask for. An option given after the command counts more than the same one
before it. -/
def Invocation.parse (arguments : List String) : Except Stop Invocation := do
  let (before, rest) ← readArguments rootGrammar arguments {}
  match rest with
  | [] => .error (if before.options.isEmpty then .nothing else .usage .noCommand)
  | name :: rest =>
    if name == "help" then .error (helpOn rest)
    match commandGrammar? name with
    | none => .error (.usage (.unknownCommand name))
    | some grammar => do
      let (after, _) ← readArguments grammar rest {}
      let command ← commandOf name after
      let shared (option default : String) : String :=
        ((after.valuesOf option ++ before.valuesOf option).head?).getD default
      .ok
        { format := (LogFormat.ofName? (shared "log-format" "console")).getD .console
          level := shared "log-level" "warning"
          command }

end CommandLine

end PackageScan
