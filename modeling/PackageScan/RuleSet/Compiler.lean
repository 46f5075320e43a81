import PackageScan.Rule.Lexer
import PackageScan.Rule.Parser
import PackageScan.Rule.Validation
import PackageScan.RuleSet.Basic
import PackageScan.Source.Diagnostic

/-!
# Compiling sources one by one

A `Compiler` takes rule sources one after another. Each is read, checked against the rules
accepted so far and compiled; a source with any error is rejected as a whole and leaves the rule
set as it was. Only the counters tell that it has been there.

`Compiler.addSource` logs every stage. `Compiler.outcome` is what it decides, without the log.
-/

namespace PackageScan

/-- Why a source is rejected. -/
inductive CompilationError where
  /-- It cannot be read as tokens. -/
  | lexical (e : LexError)
  /-- It cannot be read as rules. -/
  | grammar (e : SyntaxError)
  /-- A rule makes no sense. -/
  | validation (e : ValidationError)
  deriving DecidableEq, Repr

namespace CompilationError

/-- The stage that rejects the source. -/
def stage : CompilationError → String
  | lexical _ => "lexical"
  | grammar _ => "syntax"
  | validation _ => "validation"

/-- The error in words. -/
def message : CompilationError → String
  | lexical e => e.fault.message
  | grammar e => e.fault.message
  | validation e => e.fault.message

/-- The code under which the error is logged. -/
def code : CompilationError → Code
  | lexical e => e.fault.code
  | grammar e => e.fault.code
  | validation e => e.fault.code

/-- The stretch of source that the error is reported at. -/
def span : CompilationError → Span
  | lexical e => .point e.position
  | grammar e => e.span
  | validation e => e.span

/-- The line that the error is reported at. -/
def line (e : CompilationError) : Nat := e.span.start.line

/-- The column that the error is reported at. -/
def column (e : CompilationError) : Nat := e.span.start.column

/-- The error with its place. -/
def display (e : CompilationError) : String :=
  s!"line {e.line}, column {e.column}: {e.message}"

/-- The error with the part of the source it is about. -/
def diagnostic (e : CompilationError) (source : String) : String :=
  Diagnostic.render source.toList e.span e.message

end CompilationError

/-- What a compiler has been given. -/
structure CompilationStats where
  /-- Sources accepted. -/
  accepted : Nat := 0
  /-- Sources rejected. -/
  rejected : Nat := 0
  /-- Rules of accepted sources. -/
  rules : Nat := 0
  /-- Strings of accepted sources. -/
  strings : Nat := 0
  /-- Bytes of all sources. -/
  bytes : Nat := 0
  deriving DecidableEq, Repr

namespace CompilationStats

/-- A ratio below ten with six decimals; a half goes to the even neighbour. -/
def renderRatio (num den : Nat) : String :=
  let scaled := num * 1000000
  let down := scaled / den
  let twice := 2 * (scaled % den)
  let millionths := if twice < den || (twice = den && down % 2 = 0) then down else down + 1
  let places := (Nat.repr (1000000 + millionths % 1000000)).drop 1
  s!"{millionths / 1000000}.{places}"

/-- The share of sources accepted, with six decimals; zero where there are none. -/
def acceptance (stats : CompilationStats) : String :=
  let total := stats.accepted + stats.rejected
  if total = 0 then "0.000000" else renderRatio stats.accepted total

end CompilationStats

/-- A rule set that takes sources. -/
structure Compiler where
  /-- Choices about compiling. -/
  preferences : CompilerPreferences := {}
  /-- The rules accepted so far. -/
  set : RuleSet := {}
  /-- What has been given so far. -/
  stats : CompilationStats := {}

namespace Compiler

/-- The names of the rules accepted so far. -/
def declared (c : Compiler) : RuleNames := Std.HashSet.ofList c.set.names

/-- The rule set with the rules of a source, and these rules, or why the source is rejected. -/
def outcome (c : Compiler) (source : String) :
    Except CompilationError (RuleSet × List RuleDecl) := do
  let tokens ← (Lexer.tokenize source).mapError .lexical
  let rules ← (Parser.parse tokens).mapError .grammar
  (Validation.check rules c.declared c.preferences.rejectUnreferenced).mapError .validation
  let set ← (c.set.pushAll c.preferences.programLimit rules).mapError .validation
  .ok (set, rules)

/-- The compiler after a source with the given outcome. -/
def settle (c : Compiler) (source : String) :
    Except CompilationError (RuleSet × List RuleDecl) → Compiler
  | .ok (set, rules) =>
    { c with
      set
      stats :=
        { c.stats with
          accepted := c.stats.accepted + 1
          rules := c.stats.rules + rules.length
          strings := c.stats.strings + rules.foldl (fun n r => n + r.strings.length) 0
          bytes := c.stats.bytes + source.utf8ByteSize } }
  | .error _ =>
    { c with
      stats :=
        { c.stats with
          rejected := c.stats.rejected + 1
          bytes := c.stats.bytes + source.utf8ByteSize } }

/-- The compiler after a source, and why the source is rejected if it is. -/
def add (c : Compiler) (source : String) : Except CompilationError Unit × Compiler :=
  let outcome := c.outcome source
  (outcome.map fun _ => (), c.settle source outcome)

/-- Finds the outcome of a source and logs every stage of it. -/
def outcomeLogged (c : Compiler) (source : String) :
    Logged (Except CompilationError (RuleSet × List RuleDecl)) := do
  match ← Lexer.scanLogged source with
  | (_, .error e) => return .error (.lexical e)
  | (metrics, .ok tokens) =>
    Log.debug "Rule source tokenized"
      [("tokens", toString metrics.tokens), ("patterns", toString metrics.literals)]
    match ← Parser.parseLogged tokens with
    | .error e => return .error (.grammar e)
    | .ok rules =>
      match ← Validation.checkLogged rules c.declared c.preferences.rejectUnreferenced with
      | .error e => return .error (.validation e)
      | .ok () =>
        match c.set.pushAll c.preferences.programLimit rules with
        | .error e => return .error (.validation e)
        | .ok set => return .ok (set, rules)

/-- Adds a source and logs every stage, and last that it is rejected if it is. -/
def addSource (c : Compiler) (source : String) :
    Logged (Except CompilationError Unit × Compiler) := do
  let outcome ← c.outcomeLogged source
  if let .error e := outcome then
    Log.errorAt e.code "Rule source rejected" e.span
      [("stage", e.stage), ("line", toString e.line), ("column", toString e.column),
        ("error", e.message)]
  return (outcome.map fun _ => (), c.settle source outcome)

/-- Adds sources one after another, without a log. -/
def addAll (c : Compiler) (sources : List String) : Compiler :=
  sources.foldl (fun c source => (c.add source).2) c

/-- Hands the rule set over and announces it if the preferences say so. -/
def build (c : Compiler) : Logged RuleSet := do
  if (← get).preferences.compilationSummary then
    Log.success .compilationComplete "Rule set compiled"
      [("rules", toString c.set.rules.size), ("patterns", toString c.set.patterns.size),
        ("rejected_sources", toString c.stats.rejected)]
  return c.set

end Compiler

/-- Compiles one source, all or nothing, without a log. -/
def RuleSet.compile (preferences : CompilerPreferences) (source : String) :
    Except CompilationError RuleSet :=
  ({ preferences : Compiler }.outcome source).map Prod.fst

/-- Compiles one source, all or nothing. -/
def RuleSet.compileLogged (preferences : CompilerPreferences) (source : String) :
    Logged (Except CompilationError RuleSet) := do
  match ← { preferences : Compiler }.addSource source with
  | (.ok (), c) => return .ok (← c.build)
  | (.error e, _) => return .error e

end PackageScan
