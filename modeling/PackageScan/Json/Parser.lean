import PackageScan.Decimal.Double
import PackageScan.Json.Basic

/-!
# Reading JSON

`Json.parse?` reads a whole text as one value, with white space around it. Lists and objects
nest at most `Json.maxDepth` deep, of two fields with one key the last one counts, escapes of
surrogates come in pairs, and a number beyond the range of doubles is refused. The reader
descends along the depth that is left, so it is structural in that number; loops over items and
characters are bounded by the length of the text.
-/

namespace PackageScan

namespace Json

/-- How deep lists and objects may nest. -/
def maxDepth : Nat := 127

/-- The four white space characters of the format. -/
def isSpace (c : Char) : Bool := c == ' ' || c == '\n' || c == '\t' || c == '\r'

/-- The text after its leading white space. -/
def skipSpace (cs : List Char) : List Char := cs.dropWhile isSpace

/-- Four hexadecimal digits and the rest. -/
def hex4? : List Char → Option (Nat × List Char)
  | a :: b :: c :: d :: rest => do
    let w ← Hexadecimal.value? a
    let x ← Hexadecimal.value? b
    let y ← Hexadecimal.value? c
    let z ← Hexadecimal.value? d
    some (w * 4096 + x * 256 + y * 16 + z, rest)
  | _ => none

/-- The character an escape stands for, read after its backslash. -/
def escape? : List Char → Option (Char × List Char)
  | 'u' :: rest => do
    let (high, rest) ← hex4? rest
    if 0xD800 ≤ high ∧ high < 0xDC00 then
      match rest with
      | '\\' :: 'u' :: rest => do
        let (low, rest) ← hex4? rest
        if 0xDC00 ≤ low ∧ low < 0xE000 then
          some (Char.ofNat (0x10000 + (high - 0xD800) * 1024 + (low - 0xDC00)), rest)
        else none
      | _ => none
    else if 0xDC00 ≤ high ∧ high < 0xE000 then none
    else some (Char.ofNat high, rest)
  | c :: rest =>
    if c = '"' || c = '\\' || c = '/' then some (c, rest)
    else if c = 'b' then some (Char.ofNat 8, rest)
    else if c = 'f' then some (Char.ofNat 12, rest)
    else if c = 'n' then some ('\n', rest)
    else if c = 'r' then some ('\r', rest)
    else if c = 't' then some ('\t', rest)
    else none
  | [] => none

/-- The rest of a quoted text after its opening quote. The first argument bounds the number of
characters, the second one holds those read so far in reverse. -/
def stringBody? : Nat → List Char → List Char → Option (String × List Char)
  | 0, _, _ => none
  | _, _, [] => none
  | fuel + 1, seen, c :: rest =>
    if c = '"' then some (String.ofList seen.reverse, rest)
    else if c = '\\' then
      match escape? rest with
      | some (e, rest) => stringBody? fuel (e :: seen) rest
      | none => none
    else if c.toNat < 0x20 then none
    else stringBody? fuel (c :: seen) rest

/-- Splits off the leading run of digits. -/
def spanDigits (cs : List Char) : List Char × List Char :=
  (cs.takeWhile Char.isDigit, cs.dropWhile Char.isDigit)

/-- The exponent after its letter, or zero where there is none. -/
def exponent? (cs : List Char) : Option (Int × List Char) :=
  match cs with
  | c :: rest =>
    if c = 'e' || c = 'E' then
      let (negative, rest) := match rest with
        | '-' :: rest => (true, rest)
        | '+' :: rest => (false, rest)
        | rest => (false, rest)
      match spanDigits rest with
      | ([], _) => none
      | (ds, rest) =>
        let n : Int := Decimal.value ds
        some (if negative then -n else n, rest)
    else some (0, cs)
  | [] => some (0, cs)

/-- The bits of the double for the digits before and after a point and an exponent. Digits from
the first one on that does not fit in sixty-four bits count for nothing but their places. -/
def real? (negative : Bool) (whole places : List Char) (exponent : Int) : Option UInt64 :=
  let (n, inWhole) := Decimal.leading 0 whole
  let (n, inPlaces) := Decimal.leading n places
  Decimal.stepwiseDouble? negative n
    (exponent + (whole.length - inWhole : Nat) - (inPlaces : Nat))

/-- A number: no zero before other digits, and digits on both sides of a point. A whole number
outside the range of sixty-four bits, and minus zero, are doubles. -/
def number? (cs : List Char) : Option (Json × List Char) := do
  let (negative, cs) := match cs with
    | '-' :: rest => (true, rest)
    | _ => (false, cs)
  let (whole, rest) := spanDigits cs
  let plain ← match whole with
    | [] => none
    | '0' :: _ :: _ => none
    | ds => some (Decimal.value ds)
  let (places, rest) ← match rest with
    | '.' :: more =>
      match spanDigits more with
      | ([], _) => none
      | split => some split
    | _ => some ([], rest)
  let exponentFollows := match rest with
    | c :: _ => c == 'e' || c == 'E'
    | [] => false
  let (exponent, rest) ← exponent? rest
  if places.isEmpty && !exponentFollows then
    let n : Int := if negative then -(plain : Int) else plain
    if (negative && plain == 0) || n < -(Nat.pow 2 63 : Int) || (Nat.pow 2 64 : Int) ≤ n then
      let bits ← real? negative whole [] 0
      some (.real bits, rest)
    else some (.int n, rest)
  else
    let bits ← real? negative whole places exponent
    some (.real bits, rest)

/-- A literal, a number or a quoted text. -/
def scalar? (fuel : Nat) (cs : List Char) : Option (Json × List Char) :=
  match cs with
  | 'n' :: 'u' :: 'l' :: 'l' :: rest => some (.null, rest)
  | 't' :: 'r' :: 'u' :: 'e' :: rest => some (.bool true, rest)
  | 'f' :: 'a' :: 'l' :: 's' :: 'e' :: rest => some (.bool false, rest)
  | '"' :: rest => (stringBody? fuel [] rest).map fun (s, rest) => (.str s, rest)
  | cs => number? cs

/-- The items of a list after its first bracket, which is not the end. -/
def items? (item : List Char → Option (Json × List Char)) :
    Nat → List Json → List Char → Option (List Json × List Char)
  | 0, _, _ => none
  | fuel + 1, seen, cs => do
    let (value, rest) ← item (skipSpace cs)
    match skipSpace rest with
    | ',' :: rest => items? item fuel (value :: seen) rest
    | ']' :: rest => some ((value :: seen).reverse, rest)
    | _ => none

/-- The fields of an object after its first brace, which is not the end. -/
def fields? (item : List Char → Option (Json × List Char)) (limit : Nat) :
    Nat → Dictionary Json → List Char → Option (Dictionary Json × List Char)
  | 0, _, _ => none
  | fuel + 1, seen, cs =>
    match skipSpace cs with
    | '"' :: rest => do
      let (key, rest) ← stringBody? limit [] rest
      match skipSpace rest with
      | ':' :: rest => do
        let (value, rest) ← item (skipSpace rest)
        let seen := Dictionary.insert key value seen
        match skipSpace rest with
        | ',' :: rest => fields? item limit fuel seen rest
        | '\x7d' :: rest => some (seen, rest)
        | _ => none
      | _ => none
    | _ => none

/-- A value without white space before it, nested at most as deep as the second argument says.
The first argument bounds the number of items, fields and characters. -/
def value? (limit : Nat) : Nat → List Char → Option (Json × List Char)
  | 0, cs => scalar? limit cs
  | depth + 1, cs =>
    match cs with
    | '[' :: rest =>
      match skipSpace rest with
      | ']' :: rest => some (.arr [], rest)
      | rest => (items? (value? limit depth) limit [] rest).map fun (xs, rest) => (.arr xs, rest)
    | '\x7b' :: rest =>
      match skipSpace rest with
      | '\x7d' :: rest => some (.obj [], rest)
      | rest =>
        (fields? (value? limit depth) limit limit [] rest).map fun (xs, rest) => (.obj xs, rest)
    | cs => scalar? limit cs

/-- The value that a text writes. -/
def parse? (text : String) : Option Json :=
  let cs := text.toList
  match value? (cs.length + 1) maxDepth (skipSpace cs) with
  | some (value, rest) => if (skipSpace rest).isEmpty then some value else none
  | none => none

end Json

end PackageScan
