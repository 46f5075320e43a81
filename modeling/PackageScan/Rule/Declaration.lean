import PackageScan.Rule.Token

/-!
# Rules as they are declared

A rule has modifiers, tags, meta entries, named strings and a condition. A condition is an
expression over the rule's strings, their numbers of occurrences, the size of the data and the
names of other rules. Expressions that an error can be about carry their span.
-/

namespace PackageScan

/-- The value of a meta entry. -/
inductive MetaValue where
  /-- A quoted text. -/
  | text (value : String)
  /-- An integer. -/
  | integer (value : Int)
  /-- A truth value. -/
  | boolean (value : Bool)
  deriving DecidableEq, Repr

/-- The value as text. -/
def MetaValue.render : MetaValue → String
  | text value => value
  | integer value => toString value
  | boolean value => if value then "true" else "false"

/-- A meta entry. -/
structure MetaEntry where
  /-- Its key. -/
  key : String
  /-- Its value. -/
  value : MetaValue
  /-- Where it stands. -/
  span : Span
  deriving DecidableEq, Repr

/-- What a declared string looks for. -/
inductive StringValue where
  /-- Given bytes. -/
  | text (bytes : List UInt8)
  /-- The body of a hex string. -/
  | hex (body : String)
  /-- A regular expression. -/
  | regex (literal : RegexLiteral)
  deriving DecidableEq, Repr

/-- The kind of a string value. -/
def StringValue.kind : StringValue → String
  | text _ => "text"
  | hex _ => "hex"
  | regex _ => "regex"

/-- The modifiers of a declared string. -/
structure StringModifiers where
  /-- Letters of either case match. -/
  nocase : Bool := false
  /-- A zero byte follows each byte. -/
  wide : Bool := false
  /-- The plain form matches beside the wide one. -/
  ascii : Bool := false
  /-- No letter or digit stands next to an occurrence. -/
  fullword : Bool := false
  deriving DecidableEq, Repr, Inhabited

/-- The plain form matches unless only the wide one is asked for. -/
def StringModifiers.matchesAscii (m : StringModifiers) : Bool := m.ascii || !m.wide

/-- A declared string. -/
structure StringDecl where
  /-- Its name without the dollar sign. -/
  name : String
  /-- What it looks for. -/
  value : StringValue
  /-- How it looks for it. -/
  modifiers : StringModifiers
  /-- Where it is declared. -/
  span : Span
  deriving DecidableEq, Repr

/-- A comparison operator. -/
inductive Comparison where
  | equal
  | notEqual
  | less
  | lessEqual
  | greater
  | greaterEqual
  deriving DecidableEq, Repr

namespace Comparison

/-- The operator as it is written. -/
def symbol : Comparison → String
  | equal => "=="
  | notEqual => "!="
  | less => "<"
  | lessEqual => "<="
  | greater => ">"
  | greaterEqual => ">="

/-- The operator that a token writes. -/
def ofToken? : Token → Option Comparison
  | .equal => some equal
  | .notEqual => some notEqual
  | .less => some less
  | .lessEqual => some lessEqual
  | .greater => some greater
  | .greaterEqual => some greaterEqual
  | _ => none

/-- Does the comparison hold? -/
def holds (op : Comparison) (a b : Int) : Bool :=
  match op with
  | equal => a == b
  | notEqual => a != b
  | less => a < b
  | lessEqual => a ≤ b
  | greater => b < a
  | greaterEqual => b ≤ a

end Comparison

/-- How many strings of a set have to occur. -/
inductive Quantifier where
  /-- One or more. -/
  | any
  /-- Every one. -/
  | all
  /-- Not one. -/
  | none
  /-- At least so many. -/
  | atLeast (n : Int)
  deriving DecidableEq, Repr

/-- Does a set of `size` strings, `found` of which occur, satisfy the quantifier? -/
def Quantifier.holds (q : Quantifier) (found size : Nat) : Bool :=
  match q with
  | any => 0 < found
  | all => found == size
  | none => found == 0
  | atLeast n => n ≤ (found : Int)

/-- An item of a set of strings. -/
inductive SetItem where
  /-- The string with this name. -/
  | name (name : String)
  /-- The strings whose names start so. -/
  | startingWith (start : String)
  deriving DecidableEq, Repr

namespace SetItem

/-- Does the item select the string with this name? -/
def selects : SetItem → String → Bool
  | name n, other => n == other
  | startingWith start, other => start.toList.isPrefixOf other.toList

/-- The item as it is written. -/
def render : SetItem → String
  | name n => "$" ++ n
  | startingWith start => "$" ++ start ++ "*"

end SetItem

/-- A set of strings of a rule. -/
inductive StringSet where
  /-- All of them. -/
  | them
  /-- Those that an item selects. -/
  | items (items : List SetItem)
  deriving DecidableEq, Repr

/-- Does the set contain the string with this name? -/
def StringSet.selects : StringSet → String → Bool
  | them, _ => true
  | items list, other => list.any fun item => item.selects other

/-- A condition, or an operand of one. -/
inductive Expr where
  /-- A truth value. -/
  | bool (value : Bool)
  /-- A string occurs. -/
  | found (name : String) (span : Span)
  /-- The number of occurrences of a string. -/
  | count (name : String) (span : Span)
  /-- An integer. -/
  | int (value : Int)
  /-- The size of the data. -/
  | filesize
  /-- Another rule is true. -/
  | rule (name : String) (span : Span)
  /-- Negation. -/
  | not (operand : Expr)
  /-- Conjunction. -/
  | and (left right : Expr)
  /-- Disjunction. -/
  | or (left right : Expr)
  /-- A comparison of two operands. -/
  | compare (op : Comparison) (left right : Expr) (span : Span)
  /-- Enough strings of a set occur. -/
  | ofSet (quantifier : Quantifier) (set : StringSet) (span : Span)
  deriving DecidableEq, Repr

namespace Expr

/-- Is the expression an operand of a comparison? -/
def isInteger : Expr → Bool
  | int _ | filesize | count _ _ => true
  | _ => false

/-- The stretch of source that an expression is known to come from, if any. -/
def span? : Expr → Option Span
  | found _ span | count _ span | rule _ span => some span
  | compare _ _ _ span | ofSet _ _ span => some span
  | not operand => operand.span?
  | and left right | or left right =>
    match left.span?, right.span? with
    | some l, some r => some (l.join r)
    | some l, none => some l
    | none, r => r
  | bool _ | int _ | filesize => none

/-- The expression and everything in it, each before its parts, followed by `rest`. -/
def subtermsBefore : Expr → List Expr → List Expr
  | not operand, rest => not operand :: operand.subtermsBefore rest
  | and left right, rest =>
    and left right :: left.subtermsBefore (right.subtermsBefore rest)
  | or left right, rest =>
    or left right :: left.subtermsBefore (right.subtermsBefore rest)
  | compare op left right span, rest =>
    compare op left right span :: left.subtermsBefore (right.subtermsBefore rest)
  | e, rest => e :: rest

/-- The expression and everything in it, each before its parts. -/
def subterms (e : Expr) : List Expr := e.subtermsBefore []

/-- Length of the longest path from the expression to one of its parts, counted in
expressions. -/
def height : Expr → Nat
  | not operand => operand.height + 1
  | and left right | or left right | compare _ left right _ =>
    max left.height right.height + 1
  | _ => 1

end Expr

/-- A declared rule. -/
structure RuleDecl where
  /-- Its name. -/
  name : String
  /-- Where it is declared. -/
  span : Span
  /-- It is evaluated and never reported. -/
  isPrivate : Bool
  /-- Nothing is reported unless it is true. -/
  isGlobal : Bool
  /-- Its tags in the order of the source. -/
  tags : List String
  /-- Its meta entries in the order of the source. -/
  metaEntries : List MetaEntry
  /-- Its strings in the order of the source. -/
  strings : List StringDecl
  /-- Its condition, unless it has none. -/
  condition : Option Expr
  deriving DecidableEq, Repr

end PackageScan
