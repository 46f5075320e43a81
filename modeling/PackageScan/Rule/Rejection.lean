import PackageScan.Limits
import PackageScan.Log.Code
import PackageScan.Pattern.Hex
import PackageScan.Source.Position

/-!
# Why a rule is rejected

A rule that can be read may still not make sense. `RuleFault` lists the reasons and
`ValidationError` adds the stretch of source that the error is reported at.
-/

namespace PackageScan

/-- A quantity with a limit. -/
inductive Quantity where
  /-- Rules of a set. -/
  | rules
  /-- Strings of a rule. -/
  | strings
  deriving DecidableEq, Repr

namespace Quantity

/-- The quantity in words. -/
def message : Quantity → String
  | rules => "rule count"
  | strings => "strings per rule"

/-- The most that is allowed. -/
def limit : Quantity → Nat
  | rules => Limits.ruleCount
  | strings => Limits.stringsPerRule

end Quantity

/-- What is wrong with the type of an expression. -/
inductive TypeFault where
  /-- An operand of a comparison is no integer. -/
  | operandNotInteger
  /-- An integer stands where a truth value is due. -/
  | integerAsBoolean
  deriving DecidableEq, Repr

/-- The fault in words. -/
def TypeFault.message : TypeFault → String
  | operandNotInteger => "comparison operands must be integers"
  | integerAsBoolean => "integer used where a boolean is expected"

/-- Why a rule is rejected. -/
inductive RuleFault where
  /-- The name is taken. -/
  | duplicateRule (name : String)
  /-- Two strings of the rule have one name. -/
  | duplicateString (rule name : String)
  /-- The condition refers to a string that is not declared. -/
  | undefinedString (rule name : String)
  /-- The condition refers to a rule that is not declared before. -/
  | undefinedRule (rule name : String)
  /-- The condition refers to no string of this name. -/
  | unreferencedString (rule name : String)
  /-- The rule has no condition. -/
  | missingCondition (rule : String)
  /-- The hex string cannot be used. -/
  | invalidHexString (name : String) (reason : HexFault)
  /-- The regular expression, or the text, cannot be used. -/
  | invalidRegex (name : String) (reason : RegexFault)
  /-- The kind of string does not take the modifier. -/
  | invalidModifier (name modifier kind : String)
  /-- The string is empty. -/
  | emptyString (name : String)
  /-- An expression has the wrong type. -/
  | typeMismatch (rule : String) (reason : TypeFault)
  /-- There is too much of something. -/
  | limitExceeded (quantity : Quantity) (actual : Nat)
  deriving DecidableEq, Repr

namespace RuleFault

/-- A name between double quotes. -/
private def quoted (name : String) : String := "\"" ++ name ++ "\""

/-- The name of a string between double quotes. -/
private def quotedString (name : String) : String := quoted ("$" ++ name)

/-- The fault in words. -/
def message : RuleFault → String
  | duplicateRule name => s!"duplicate rule identifier {quoted name}"
  | duplicateString rule name =>
    s!"duplicate string identifier {quotedString name} in rule {quoted rule}"
  | undefinedString rule name =>
    s!"undefined string identifier {quotedString name} in rule {quoted rule}"
  | undefinedRule rule name => s!"undefined identifier {quoted name} in rule {quoted rule}"
  | unreferencedString rule name =>
    s!"unreferenced string {quotedString name} in rule {quoted rule}"
  | missingCondition rule => s!"rule {quoted rule} has no condition"
  | invalidHexString name reason =>
    s!"invalid hex string {quotedString name}: {reason.message}"
  | invalidRegex name reason =>
    s!"invalid regular expression {quotedString name}: {reason.message}"
  | invalidModifier name modifier kind =>
    s!"modifier '{modifier}' is not valid for {kind} string {quotedString name}"
  | emptyString name => s!"empty string {quotedString name}"
  | typeMismatch rule reason => s!"type mismatch in rule {quoted rule}: {reason.message}"
  | limitExceeded quantity actual =>
    s!"{quantity.message} exceeded: {actual} (max {quantity.limit})"

/-- The code under which the fault is logged. -/
def code : RuleFault → Code
  | duplicateRule _ => .duplicateRule
  | duplicateString _ _ => .duplicateString
  | undefinedString _ _ => .undefinedString
  | undefinedRule _ _ => .undefinedRule
  | unreferencedString _ _ => .unreferencedString
  | missingCondition _ => .missingCondition
  | invalidHexString _ _ => .invalidHexString
  | invalidRegex _ _ => .invalidRegex
  | invalidModifier _ _ _ => .invalidModifier
  | emptyString _ => .emptyString
  | typeMismatch _ _ => .typeMismatch
  | limitExceeded _ _ => .limitExceeded

end RuleFault

/-- A fault and the stretch of source that it is reported at. -/
structure ValidationError where
  /-- What is wrong. -/
  fault : RuleFault
  /-- Where. -/
  span : Span
  deriving DecidableEq, Repr

end PackageScan
