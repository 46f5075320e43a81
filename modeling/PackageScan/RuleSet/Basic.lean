import PackageScan.Dictionary
import PackageScan.Pattern.Basic
import PackageScan.RuleSet.Condition

/-!
# Rule sets

A `RuleSet` holds compiled rules in the order of declaration and one table with the patterns of
all their strings. `RuleSet.push` compiles a rule and appends it; the patterns of a rule form one
block of the table. `RuleSet.scan` evaluates the rules one after another on the data and reports
those that are true, private ones apart, unless a global rule is false.
-/

namespace PackageScan

/-- Choices about compiling. -/
structure CompilerPreferences where
  /-- Reject a rule if its condition does not refer to all its strings. -/
  rejectUnreferenced : Bool := true
  /-- Largest program of a pattern, in bytes. -/
  programLimit : Nat := Limits.programSize
  deriving DecidableEq, Repr

/-- A compiled rule. -/
structure CompiledRule where
  /-- Its name. -/
  name : String
  /-- Its tags. -/
  tags : NameSet
  /-- Its meta entries as text. -/
  metaData : Dictionary String
  /-- It is never reported. -/
  isPrivate : Bool
  /-- Nothing is reported unless it is true. -/
  isGlobal : Bool
  /-- When it is true. -/
  condition : Condition
  deriving DecidableEq, Repr

/-- A rule that is true of some data, as it is reported. -/
structure RuleMatch where
  /-- Its name. -/
  rule : String
  /-- Its tags. -/
  tags : NameSet
  /-- Its meta entries as text. -/
  metaData : Dictionary String
  deriving DecidableEq, Repr

/-- Compiled rules and the patterns of their strings. -/
structure RuleSet where
  /-- The rules in the order of declaration. -/
  rules : Array CompiledRule := #[]
  /-- The patterns of all strings, a block per rule. -/
  patterns : Array Pattern := #[]

namespace RuleSet

/-- The set without rules. -/
def empty : RuleSet := {}

/-- Names of the rules in the order of declaration. -/
def names (s : RuleSet) : List String := s.rules.toList.map CompiledRule.name

/-- Compiles strings one after another. -/
def compileStrings (limit : Nat) (decls : List StringDecl) :
    Except ValidationError (List Pattern) :=
  decls.mapM (Pattern.compile limit)

/-- The rule that a declaration describes, under a resolved condition. -/
def ruleOf (decl : RuleDecl) (condition : Condition) : CompiledRule where
  name := decl.name
  tags := NameSet.ofList decl.tags
  metaData := Dictionary.ofPairs (decl.metaEntries.map fun e => (e.key, e.value.render))
  isPrivate := decl.isPrivate
  isGlobal := decl.isGlobal
  condition := condition

/-- What names mean in a rule that is appended to the set. -/
def namesFor (s : RuleSet) (decl : RuleDecl) : Names where
  rule := decl.name
  strings := decl.strings.mapIdx fun i string => (string.name, s.patterns.size + i)
  ruleIndex? := fun name => s.rules.findIdx? fun rule => rule.name == name

/-- Compiles a rule and appends it. -/
def push (limit : Nat) (s : RuleSet) (decl : RuleDecl) : Except ValidationError RuleSet := do
  match decl.condition with
  | none => .error ⟨.missingCondition decl.name, decl.span⟩
  | some e =>
    let patterns ← compileStrings limit decl.strings
    let condition ← (s.namesFor decl).resolve e
    .ok { rules := s.rules.push (ruleOf decl condition), patterns := s.patterns ++ patterns }

/-- Compiles rules one after another and appends them. -/
def pushAll (limit : Nat) (s : RuleSet) (decls : List RuleDecl) :
    Except ValidationError RuleSet :=
  decls.foldlM (push limit) s

/-! ### Scanning -/

/-- Numbers of occurrences of all patterns. -/
def counts (s : RuleSet) (data : ByteArray) : Array Nat := s.patterns.map fun p => p.count data

/-- The truth values of the rules, each evaluated with those before it known. -/
def results (s : RuleSet) (data : ByteArray) : Array Bool :=
  let counts := s.counts data
  s.rules.foldl (fun results rule =>
    let facts : Facts := { counts, filesize := min data.size integerCap, results }
    results.push (facts.evaluate rule.condition)) #[]

/-- A rule as it is reported. -/
def report (rule : CompiledRule) : RuleMatch :=
  { rule := rule.name, tags := rule.tags, metaData := rule.metaData }

/-- The rules that are true of the data. -/
def scan (s : RuleSet) (data : ByteArray) : List RuleMatch :=
  let judged := s.rules.toList.zip (s.results data).toList
  if judged.any fun (rule, result) => rule.isGlobal && !result then []
  else judged.filterMap fun (rule, result) =>
    if result && !rule.isPrivate then some (report rule) else none

end RuleSet

end PackageScan
