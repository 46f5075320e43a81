import Std.Data.HashSet
import PackageScan.Log.Journal
import PackageScan.Rule.Declaration
import PackageScan.Rule.Rejection
import PackageScan.Text.Blank

/-!
# Checking rules

A rule is checked against the names of the rules declared before it: its own name, the number of
its strings, each string in turn, the presence and the types of its condition, what the
condition refers to, and last whether every string is referred to. The first offence is
reported.
-/

namespace PackageScan

/-- The names of the rules declared so far. -/
abbrev RuleNames := Std.HashSet String

namespace Validation

/-! ### Strings -/

/-- Is there nothing to look for? -/
def isEmptyValue : StringValue → Bool
  | .text bytes => bytes.isEmpty
  | .hex body => Text.allBlank body.toList
  | .regex literal => literal.pattern.isEmpty

/-- The first modifier that the kind of string does not take. -/
def invalidModifier? (value : StringValue) (m : StringModifiers) : Option String :=
  let set := match value with
    | .text _ => []
    | .hex _ =>
      [(m.nocase, "nocase"), (m.wide, "wide"), (m.ascii, "ascii"), (m.fullword, "fullword")]
    | .regex _ => [(m.wide, "wide"), (m.fullword, "fullword")]
  (set.find? Prod.fst).map Prod.snd

/-- Checks the strings of a rule against the names of those before them. -/
def checkStrings (rule : String) (seen : Std.HashSet String) :
    List StringDecl → Except ValidationError Unit
  | [] => .ok ()
  | decl :: rest =>
    if seen.contains decl.name then .error ⟨.duplicateString rule decl.name, decl.span⟩
    else if isEmptyValue decl.value then .error ⟨.emptyString decl.name, decl.span⟩
    else
      match invalidModifier? decl.value decl.modifiers with
      | some modifier =>
        .error ⟨.invalidModifier decl.name modifier decl.value.kind, decl.span⟩
      | none => checkStrings rule (seen.insert decl.name) rest

/-! ### Conditions -/

/-- Checks that a condition is a truth value and that it compares integers. An error without a
place of its own is reported at the rule. -/
def checkTypes (rule : RuleDecl) : Expr → Except ValidationError Unit
  | .bool _ | .found _ _ | .rule _ _ | .ofSet _ _ _ => .ok ()
  | .not operand => checkTypes rule operand
  | .and left right | .or left right => do
    checkTypes rule left
    checkTypes rule right
  | .compare _ left right span =>
    if left.isInteger && right.isInteger then .ok ()
    else .error ⟨.typeMismatch rule.name .operandNotInteger, span⟩
  | e => .error ⟨.typeMismatch rule.name .integerAsBoolean, e.span?.getD rule.span⟩

/-- What an item of a set is called when it selects nothing. -/
def itemName : SetItem → String
  | .name name => name
  | .startingWith start => start ++ "*"

/-- What one expression refers to in vain, its parts apart. -/
def danglingReference? (rule : RuleDecl) (declared : RuleNames) (e : Expr) :
    Option ValidationError :=
  let undefined (name : String) (span : Span) : ValidationError :=
    ⟨.undefinedString rule.name name, span⟩
  match e with
  | .found name span | .count name span =>
    if rule.strings.any fun s => s.name == name then none else some (undefined name span)
  | .ofSet _ .them span => if rule.strings.isEmpty then some (undefined "*" span) else none
  | .ofSet _ (.items items) span =>
    (items.find? fun item => !rule.strings.any fun s => item.selects s.name).map fun item =>
      undefined (itemName item) span
  | .rule name span =>
    if declared.contains name then none else some ⟨.undefinedRule rule.name name, span⟩
  | _ => none

/-- Does one expression refer to the string, its parts apart? -/
def refersTo (name : String) : Expr → Bool
  | .found n _ | .count n _ => n == name
  | .ofSet _ set _ => set.selects name
  | _ => false

/-- Checks everything that a condition refers to, and on request that it refers to every
string. -/
def checkReferences (rule : RuleDecl) (condition : Expr) (declared : RuleNames)
    (rejectUnreferenced : Bool) : Except ValidationError Unit :=
  let parts := condition.subterms
  match parts.findSome? (danglingReference? rule declared) with
  | some e => .error e
  | none =>
    let unused := rule.strings.find? fun s => !parts.any (refersTo s.name)
    match rejectUnreferenced, unused with
    | true, some s => .error ⟨.unreferencedString rule.name s.name, s.span⟩
    | _, _ => .ok ()

/-! ### Rules -/

/-- Checks a rule against the names declared before it. -/
def checkRule (rule : RuleDecl) (declared : RuleNames) (rejectUnreferenced : Bool) :
    Except ValidationError Unit := do
  if declared.contains rule.name then .error ⟨.duplicateRule rule.name, rule.span⟩
  if Limits.stringsPerRule < rule.strings.length then
    .error ⟨.limitExceeded .strings rule.strings.length, rule.span⟩
  checkStrings rule.name ∅ rule.strings
  match rule.condition with
  | none => .error ⟨.missingCondition rule.name, rule.span⟩
  | some condition =>
    checkTypes rule condition
    checkReferences rule condition declared rejectUnreferenced

/-- Checks that a set of `existing` rules can take more rules. The error is reported at the
first rule that is too many. -/
def checkCount (existing : Nat) (rules : List RuleDecl) : Except ValidationError Unit :=
  let total := existing + rules.length
  if Limits.ruleCount < total then
    let span := match rules[Limits.ruleCount - existing]? with
      | some rule => rule.span
      | none => .unknown
    .error ⟨.limitExceeded .rules total, span⟩
  else .ok ()

/-- Checks rules one after another; each sees the names of those before it. An error comes with
the rule that it is about. -/
def checkRules (rejectUnreferenced : Bool) (declared : RuleNames) :
    List RuleDecl → Except (RuleDecl × ValidationError) Unit
  | [] => .ok ()
  | rule :: rest =>
    match checkRule rule declared rejectUnreferenced with
    | .error e => .error (rule, e)
    | .ok () => checkRules rejectUnreferenced (declared.insert rule.name) rest

/-- Checks the rules of a source against those of a set. -/
def check (rules : List RuleDecl) (declared : RuleNames) (rejectUnreferenced : Bool) :
    Except ValidationError Unit :=
  match checkCount declared.size rules with
  | .error e => .error e
  | .ok () => (checkRules rejectUnreferenced declared rules).mapError Prod.snd

/-- Checks the rules of a source and logs which rule is rejected. -/
def checkLogged (rules : List RuleDecl) (declared : RuleNames) (rejectUnreferenced : Bool) :
    Logged (Except ValidationError Unit) := do
  match checkCount declared.size rules with
  | .error e => return .error e
  | .ok () =>
    match checkRules rejectUnreferenced declared rules with
    | .error (rule, e) =>
      Log.errorAt e.fault.code "Rule failed validation" e.span
        [("rule", rule.name), ("error", e.fault.message)]
      return .error e
    | .ok () => return .ok ()

end Validation

end PackageScan
