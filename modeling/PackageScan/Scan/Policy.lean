import PackageScan.RuleSet.Compiler
import PackageScan.Scan.Rule

/-!
# Compiling a snapshot

The rules of a snapshot are compiled one by one, where a rule that fails is left out with a
warning, or all together, where a rule that fails takes the others with it.
-/

namespace PackageScan

/-- How the rules of a snapshot are compiled. -/
inductive CompilationPolicy where
  /-- One by one. -/
  | isolated
  /-- All together. -/
  | allOrNothing
  deriving DecidableEq, Repr

namespace CompilationPolicy

/-- All policies. -/
def all : List CompilationPolicy := [isolated, allOrNothing]

/-- The name of a policy. -/
def name : CompilationPolicy → String
  | isolated => "isolated"
  | allOrNothing => "all_or_nothing"

/-- The policy with exactly the given name. -/
def ofName? (name : String) : Option CompilationPolicy :=
  all.find? fun policy => policy.name == name

/-- The policy that a person may have meant: letters of either case, and hyphens for underscores. -/
def parse? (name : String) : Option CompilationPolicy :=
  ofName? (name.toLower.map fun c => if c = '-' then '_' else c)

/-- The policy that a JSON value stands for. -/
def ofJson? (j : Json) : Option CompilationPolicy := Json.choice? ofName? j

end CompilationPolicy

namespace Snapshot

/-- The compiler after the rules of the snapshot one by one, without a log. -/
def compileIsolated (preferences : CompilerPreferences) (s : Snapshot) : Compiler :=
  Compiler.addAll { preferences } (s.compilable.map Prod.snd)

/-- Adds rules one by one and warns of those that are left out. -/
def addIsolated : List (StoredRule × String) → Compiler → Logged Compiler
  | [], c => return c
  | (rule, source) :: rest, c => do
    let (outcome, c) ← c.addSource source
    if let .error e := outcome then
      Log.codedWarning .ruleSkipped "Rule left out of the scan after failing to compile"
        [("rule_id", toString rule.id), ("rule", rule.name), ("error", e.display)]
    addIsolated rest c

/-- Compiles the rules that take part, by a policy. -/
def compile (policy : CompilationPolicy) (preferences : CompilerPreferences) (s : Snapshot) :
    Logged (Except CompilationError RuleSet) :=
  match policy with
  | .allOrNothing => RuleSet.compileLogged preferences s.joined
  | .isolated => do
    let c ← addIsolated s.compilable { preferences }
    return .ok (← c.build)

end Snapshot

end PackageScan
