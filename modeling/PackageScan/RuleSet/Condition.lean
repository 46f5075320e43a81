import PackageScan.Rule.Declaration
import PackageScan.Rule.Rejection

/-!
# Resolved conditions

In a resolved condition the names of strings and rules are replaced by indices into the tables of
a rule set. `Names.resolve` replaces them and `Facts.evaluate` gives the truth value under the
facts that a scan collects about the data. An index outside of the collected facts counts as a
string that does not occur and as a rule that is false.
-/

namespace PackageScan

/-- What a comparison compares. -/
inductive Operand where
  /-- An integer. -/
  | int (value : Int)
  /-- The size of the data. -/
  | filesize
  /-- The number of occurrences of a pattern. -/
  | count (pattern : Nat)
  deriving DecidableEq, Repr

/-- A condition over indices. -/
inductive Condition where
  /-- A truth value. -/
  | bool (value : Bool)
  /-- A pattern occurs. -/
  | found (pattern : Nat)
  /-- A rule is true. -/
  | rule (index : Nat)
  /-- Negation. -/
  | not (operand : Condition)
  /-- Conjunction. -/
  | and (left right : Condition)
  /-- Disjunction. -/
  | or (left right : Condition)
  /-- A comparison. -/
  | compare (op : Comparison) (left right : Operand)
  /-- Enough patterns of a list occur. -/
  | ofSet (quantifier : Quantifier) (patterns : List Nat)
  deriving DecidableEq, Repr

/-! ### Resolving -/

/-- What names mean in the condition of a rule. -/
structure Names where
  /-- The rule. -/
  rule : String
  /-- The strings of the rule with their indices, in the order of declaration. -/
  strings : List (String × Nat)
  /-- The index of a rule. -/
  ruleIndex? : String → Option Nat

namespace Names

/-- The index of a string that `e` refers to. -/
def stringIndex (names : Names) (name : String) (e : Expr) : Except ValidationError Nat :=
  match names.strings.lookup name with
  | some index => .ok index
  | none => .error ⟨.undefinedString names.rule name, e.span?.getD .unknown⟩

/-- Adds the indices that an item selects and that are not listed yet. -/
def addSelected (names : Names) (listed : List Nat) (item : SetItem) : List Nat :=
  names.strings.foldl (fun listed (name, index) =>
    if item.selects name && !listed.contains index then listed ++ [index] else listed) listed

/-- The indices of a set of strings, each once. -/
def setIndices (names : Names) : StringSet → List Nat
  | .them => names.strings.map Prod.snd
  | .items items => items.foldl names.addSelected []

/-- Resolves an operand of a comparison. -/
def operand (names : Names) (e : Expr) : Except ValidationError Operand :=
  match e with
  | .int value => .ok (.int value)
  | .filesize => .ok .filesize
  | .count name _ => do .ok (.count (← names.stringIndex name e))
  | _ => .error ⟨.typeMismatch names.rule .operandNotInteger, e.span?.getD .unknown⟩

/-- Resolves a condition. -/
def resolve (names : Names) : Expr → Except ValidationError Condition
  | .bool value => .ok (.bool value)
  | .found name span => do .ok (.found (← names.stringIndex name (.found name span)))
  | .rule name span =>
    match names.ruleIndex? name with
    | some index => .ok (.rule index)
    | none => .error ⟨.undefinedRule names.rule name, span⟩
  | .not operand => do .ok (.not (← names.resolve operand))
  | .and left right => do
    let l ← names.resolve left
    let r ← names.resolve right
    .ok (.and l r)
  | .or left right => do
    let l ← names.resolve left
    let r ← names.resolve right
    .ok (.or l r)
  | .compare op left right _ => do
    let l ← names.operand left
    let r ← names.operand right
    .ok (.compare op l r)
  | .ofSet quantifier set _ => .ok (.ofSet quantifier (names.setIndices set))
  | e => .error ⟨.typeMismatch names.rule .integerAsBoolean, e.span?.getD .unknown⟩

end Names

/-! ### Evaluating -/

/-- Largest integer of the rule language; larger sizes and counts are taken for it. -/
def integerCap : Nat := 0x7fffffffffffffff

/-- What is known about the data when a rule is evaluated. -/
structure Facts where
  /-- The numbers of occurrences of the patterns. -/
  counts : Array Nat
  /-- The size of the data. -/
  filesize : Int
  /-- The truth values of the rules evaluated so far. -/
  results : Array Bool

namespace Facts

/-- Number of occurrences of a pattern. -/
def count (facts : Facts) (pattern : Nat) : Nat := facts.counts.getD pattern 0

/-- Value of an operand. -/
def value (facts : Facts) : Operand → Int
  | .int value => value
  | .filesize => facts.filesize
  | .count pattern => min (facts.count pattern) integerCap

/-- Truth value of a condition. -/
def evaluate (facts : Facts) : Condition → Bool
  | .bool value => value
  | .found pattern => 0 < facts.count pattern
  | .rule index => facts.results.getD index false
  | .not operand => !facts.evaluate operand
  | .and left right => facts.evaluate left && facts.evaluate right
  | .or left right => facts.evaluate left || facts.evaluate right
  | .compare op left right => op.holds (facts.value left) (facts.value right)
  | .ofSet quantifier patterns =>
    quantifier.holds (patterns.countP fun p => 0 < facts.count p) patterns.length

end Facts

end PackageScan
