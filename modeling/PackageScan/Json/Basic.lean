import PackageScan.Dictionary
import PackageScan.Decimal.Shortest
import PackageScan.Text.Hexadecimal

/-!
# JSON values and their text

A key occurs once in an object. Objects that are read, and those of `Json.mkObj`, are
dictionaries with their keys in increasing order; a record keeps its fields in the order in which
they are declared. Whole numbers are exact; every other number is a double, held by its bits.
`Json.render` writes a value without any white space, `Json.renderPretty` over several lines.
-/

namespace PackageScan

/-- A JSON value. -/
inductive Json where
  /-- The literal `null`. -/
  | null
  /-- A truth value. -/
  | bool (b : Bool)
  /-- A number without fraction and exponent. -/
  | int (n : Int)
  /-- Any other number, as the bits of a double. -/
  | real (bits : UInt64)
  /-- A text. -/
  | str (s : String)
  /-- A list. -/
  | arr (items : List Json)
  /-- An object, each key once. -/
  | obj (fields : List (String × Json))
  deriving Inhabited

namespace Json

/-- The object with the given fields; the last value of a key stays. -/
def mkObj (fields : List (String × Json)) : Json := .obj (Dictionary.ofPairs fields)

/-- A natural number. -/
def nat (n : Nat) : Json := .int n

/-- A list of texts. -/
def strs (ss : List String) : Json := .arr (ss.map .str)

/-- A value or `null`. -/
def ofOption {α : Type} (f : α → Json) : Option α → Json
  | some a => f a
  | none => .null

/-- The field of an object. -/
def get? (key : String) : Json → Option Json
  | .obj fields => Dictionary.find? fields key
  | _ => none

/-- The text of a string value. -/
def asStr? : Json → Option String
  | .str s => some s
  | _ => none

/-- The truth value of a boolean. -/
def asBool? : Json → Option Bool
  | .bool b => some b
  | _ => none

/-- The number of an integer value. -/
def asInt? : Json → Option Int
  | .int n => some n
  | _ => none

/-- The items of a list. -/
def asArr? : Json → Option (List Json)
  | .arr items => some items
  | _ => none

/-- The number of an integer value that fits sixty-four bits without a sign. -/
def asNat64? : Json → Option Nat
  | .int (.ofNat n) => if n < Nat.pow 2 64 then some n else none
  | _ => none

/-! ### Text -/

/-- How a character stands inside a quoted text: the quote, the backslash and the control
characters are escaped, those with a short form by it. -/
def escapeChar (c : Char) : List Char :=
  if c = '"' then ['\\', '"']
  else if c = '\\' then ['\\', '\\']
  else if c.toNat < 0x20 then
    if c = '\n' then ['\\', 'n']
    else if c = '\t' then ['\\', 't']
    else if c = '\r' then ['\\', 'r']
    else if c.toNat = 8 then ['\\', 'b']
    else if c.toNat = 12 then ['\\', 'f']
    else ['\\', 'u', '0', '0', Hexadecimal.lower (c.toNat / 16), Hexadecimal.lower (c.toNat % 16)]
  else [c]

/-- A quoted text. -/
def quote (s : String) : String :=
  String.ofList ('"' :: (s.toList.flatMap escapeChar) ++ ['"'])

/-- The text of a double: positional for magnitudes from `10^-5` up to `10^16`, with a point
that has digits on both sides, else with an exponent. -/
def renderReal (bits : UInt64) : String :=
  let sign := if bits.toNat / Nat.pow 2 63 = 1 then "-" else ""
  let magnitude := bits.toNat % Nat.pow 2 63
  if magnitude = 0 then sign ++ "0.0"
  else if 2047 * Nat.pow 2 52 ≤ magnitude then "null"
  else
    let p := Decimal.shortest magnitude.toUInt64
    let digits := (Nat.repr p.digits).toList
    let n : Int := digits.length
    let point := n + p.exponent
    let zeros (k : Int) : List Char := List.replicate k.toNat '0'
    let body : List Char :=
      if 0 ≤ p.exponent ∧ point ≤ 16 then digits ++ zeros p.exponent ++ ['.', '0']
      else if 0 < point ∧ point ≤ 16 then
        digits.take point.toNat ++ '.' :: digits.drop point.toNat
      else if -5 < point ∧ point ≤ 0 then '0' :: '.' :: zeros (-point) ++ digits
      else
        let mantissa := match digits with
          | [d] => [d]
          | d :: more => d :: '.' :: more
          | [] => []
        mantissa ++ 'e' :: (toString (point - 1)).toList
    sign ++ String.ofList body

mutual

/-- The text of a value, without white space. -/
def render : Json → String
  | .null => "null"
  | .bool b => if b then "true" else "false"
  | .int n => toString n
  | .real bits => renderReal bits
  | .str s => quote s
  | .arr items => "[" ++ String.intercalate "," (renderItems items) ++ "]"
  | .obj fields => "\x7b" ++ String.intercalate "," (renderFields fields) ++ "\x7d"

/-- The texts of the items of a list. -/
def renderItems : List Json → List String
  | [] => []
  | item :: rest => render item :: renderItems rest

/-- The texts of the fields of an object. -/
def renderFields : List (String × Json) → List String
  | [] => []
  | (key, value) :: rest => (quote key ++ ":" ++ render value) :: renderFields rest

end

/-- A line end and the indentation of a depth. -/
def newLine (depth : Nat) : String := "\n" ++ "".pushn ' ' (2 * depth)

mutual

/-- The text of a value over several lines, each item and field on its own, two blanks deeper than
the brackets around it. -/
def renderPretty (depth : Nat) : Json → String
  | .arr [] => "[]"
  | .arr items =>
    "[" ++ ",".intercalate (prettyItems (depth + 1) items) ++ newLine depth ++ "]"
  | .obj [] => "\x7b\x7d"
  | .obj fields =>
    "\x7b" ++ ",".intercalate (prettyFields (depth + 1) fields) ++ newLine depth ++ "\x7d"
  | .null => "null"
  | .bool b => if b then "true" else "false"
  | .int n => toString n
  | .real bits => renderReal bits
  | .str s => quote s

/-- The items of a list, each on its own line. -/
def prettyItems (depth : Nat) : List Json → List String
  | [] => []
  | item :: rest => (newLine depth ++ renderPretty depth item) :: prettyItems depth rest

/-- The fields of an object, each on its own line. -/
def prettyFields (depth : Nat) : List (String × Json) → List String
  | [] => []
  | (key, value) :: rest =>
    (newLine depth ++ quote key ++ ": " ++ renderPretty depth value) :: prettyFields depth rest

end

end Json

end PackageScan
