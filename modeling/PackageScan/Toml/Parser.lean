import PackageScan.Decimal.Double
import PackageScan.Text.Hexadecimal
import PackageScan.Time.Date
import PackageScan.Toml.Basic

/-!
# Reading TOML

`Toml.parse?` reads a document of version 1.0 of the language: lines with keys and values, and
headers of tables. Lists and braces nest less than eighty deep, and so do dotted keys. Whole
numbers have sixty-four bits; a number that need not be whole may be below the range of doubles,
but not above it.

The reader of values descends along the depth that is left, so it is structural in that number;
loops over lines, items and characters are bounded by the length of the text.
-/

namespace PackageScan

namespace Toml

/-! ### Blanks, comments and line ends -/

/-- Is the character a blank within a line? -/
def isSpace (c : Char) : Bool := c == ' ' || c == '\t'

/-- The text after its leading blanks. -/
def skipSpace (cs : List Char) : List Char := cs.dropWhile isSpace

/-- May the character stand in a comment? -/
def isPrintable (c : Char) : Bool := c == '\t' || (0x20 ≤ c.toNat && c.toNat ≠ 0x7F)

/-- The text after a comment, if there is one. -/
def skipComment : List Char → List Char
  | '#' :: rest => rest.dropWhile isPrintable
  | cs => cs

/-- The text after a line end. -/
def newLine? : List Char → Option (List Char)
  | '\n' :: rest => some rest
  | '\r' :: '\n' :: rest => some rest
  | _ => none

/-- The text after the end of a line or of the document. -/
def lineEnd? : List Char → Option (List Char)
  | [] => some []
  | cs => newLine? cs

/-- The text after a line of which only blanks and a comment are left. -/
def lineRest? (cs : List Char) : Option (List Char) := lineEnd? (skipComment (skipSpace cs))

/-- The text after blanks, comments and line ends; a comment has to end with its line. -/
def skipLines : Nat → List Char → List Char
  | 0, cs => cs
  | fuel + 1, cs =>
    let cs := skipSpace cs
    match newLine? (skipComment cs) with
    | some rest => skipLines fuel rest
    | none => cs

/-! ### Texts -/

/-- The character with the number that hexadecimal digits write. -/
def scalarOf? (ds : List Char) : Option Char := do
  let n ← Decimal.valueIn 16 Hexadecimal.value? ds
  if n < 0xD800 ∨ (0xE000 ≤ n ∧ n < 0x110000) then some (Char.ofNat n) else none

/-- The character that so many hexadecimal digits stand for. -/
def codePoint? (count : Nat) (cs : List Char) : Option (Char × List Char) :=
  let ds := cs.take count
  if ds.length = count then (scalarOf? ds).map fun c => (c, cs.drop count) else none

/-- The character an escape stands for, read after its backslash. -/
def escape? : List Char → Option (Char × List Char)
  | c :: rest =>
    if c = '"' || c = '\\' then some (c, rest)
    else if c = 'b' then some (Char.ofNat 8, rest)
    else if c = 'f' then some (Char.ofNat 12, rest)
    else if c = 'n' then some ('\n', rest)
    else if c = 'r' then some ('\r', rest)
    else if c = 't' then some ('\t', rest)
    else if c = 'u' then codePoint? 4 rest
    else if c = 'U' then codePoint? 8 rest
    else none
  | [] => none

/-- The rest of a text in quotes after the first one. -/
def basicBody? : Nat → List Char → List Char → Option (String × List Char)
  | 0, _, _ => none
  | _, _, [] => none
  | fuel + 1, seen, c :: rest =>
    if c = '"' then some (String.ofList seen.reverse, rest)
    else if c = '\\' then
      match escape? rest with
      | some (e, rest) => basicBody? fuel (e :: seen) rest
      | none => none
    else if isPrintable c then basicBody? fuel (c :: seen) rest
    else none

/-- The rest of a text in apostrophes after the first one. -/
def literalBody? (cs : List Char) : Option (String × List Char) :=
  let body := cs.takeWhile fun c => c != '\'' && isPrintable c
  match cs.drop body.length with
  | '\'' :: rest => some (String.ofList body, rest)
  | _ => none

/-- The text after an escaped line end: the rest of the line and all blanks and line ends after
it are left out. -/
def skipEscapedLine? (fuel : Nat) (cs : List Char) : Option (List Char) :=
  let rec skip : Nat → List Char → List Char
    | 0, cs => cs
    | fuel + 1, cs =>
      let cs := skipSpace cs
      match newLine? cs with
      | some rest => skip fuel rest
      | none => cs
  (newLine? (skipSpace cs)).map (skip fuel)

/-- The rest of a text over several lines after its first marks. Three marks end it; up to two
more before them belong to it. -/
def longBody? (mark : Char) (escapes : Bool) :
    Nat → List Char → List Char → Option (String × List Char)
  | 0, _, _ => none
  | _, _, [] => none
  | fuel + 1, seen, c :: rest =>
    if c = mark then
      let run := ((c :: rest).takeWhile fun d => d == mark).length
      if run < 3 then
        longBody? mark escapes fuel (List.replicate run mark ++ seen) ((c :: rest).drop run)
      else
        let extra := min (run - 3) 2
        some (String.ofList (List.replicate extra mark ++ seen).reverse,
          (c :: rest).drop (3 + extra))
    else if escapes && c == '\\' then
      match skipEscapedLine? fuel rest with
      | some rest => longBody? mark escapes fuel seen rest
      | none =>
        match escape? rest with
        | some (e, rest) => longBody? mark escapes fuel (e :: seen) rest
        | none => none
    else
      match newLine? (c :: rest) with
      | some rest => longBody? mark escapes fuel ('\n' :: seen) rest
      | none => if isPrintable c then longBody? mark escapes fuel (c :: seen) rest else none

/-- A text over several lines after its first marks; a line end right after them is left out. -/
def longText? (mark : Char) (escapes : Bool) (fuel : Nat) (cs : List Char) :
    Option (String × List Char) :=
  longBody? mark escapes fuel [] ((newLine? cs).getD cs)

/-- A text of any kind. -/
def text? (fuel : Nat) : List Char → Option (String × List Char)
  | '"' :: '"' :: '"' :: rest => longText? '"' true fuel rest
  | '\'' :: '\'' :: '\'' :: rest => longText? '\'' false fuel rest
  | '"' :: rest => basicBody? fuel [] rest
  | '\'' :: rest => literalBody? rest
  | _ => none

/-! ### Keys -/

/-- How deep values and keys may nest, plus one. -/
def maxDepth : Nat := 80

/-- May the character stand in a key without quotes? -/
def isBare (c : Char) : Bool := c.isAlphanum || c == '_' || c == '-'

/-- A key without dots. -/
def simpleKey? (fuel : Nat) : List Char → Option (String × List Char)
  | '"' :: rest => basicBody? fuel [] rest
  | '\'' :: rest => literalBody? rest
  | cs =>
    match cs.takeWhile isBare with
    | [] => none
    | ds => some (String.ofList ds, cs.drop ds.length)

/-- The parts of a dotted key, with blanks around each of them. -/
def keyParts? (limit : Nat) : Nat → List Char → Option (List String × List Char)
  | 0, _ => none
  | fuel + 1, cs => do
    let (part, rest) ← simpleKey? limit (skipSpace cs)
    match skipSpace rest with
    | '.' :: rest => do
      let (parts, rest) ← keyParts? limit fuel rest
      some (part :: parts, rest)
    | rest => some ([part], rest)

/-- A dotted key: the parts that lead to a table, and the last one. -/
def key? (fuel : Nat) (cs : List Char) : Option (List String × String × List Char) := do
  let (parts, rest) ← keyParts? fuel fuel cs
  let last ← parts.getLast?
  if parts.length < maxDepth then some (parts.dropLast, last, rest) else none

/-! ### Numbers -/

/-- Digits, between which there may be underscores one at a time. -/
def digits? (isDigit : Char → Bool) : Nat → List Char → Option (List Char × List Char)
  | 0, _ => none
  | fuel + 1, c :: rest =>
    if isDigit c then
      let more := match rest with
        | '_' :: d :: _ => if isDigit d then digits? isDigit fuel (rest.drop 1) else none
        | _ => digits? isDigit fuel rest
      some (match more with
        | some (ds, rest) => (c :: ds, rest)
        | none => ([c], rest))
    else none
  | _, [] => none

/-- A sign, negative or not, and the rest. -/
def sign : List Char → Bool × List Char
  | '-' :: rest => (true, rest)
  | '+' :: rest => (false, rest)
  | cs => (false, cs)

/-- A whole number in base ten without a zero before other digits: its sign and its digits. -/
def whole? (fuel : Nat) (cs : List Char) : Option (Bool × List Char × List Char) :=
  let (negative, cs) := sign cs
  match cs with
  | '0' :: rest => some (negative, ['0'], rest)
  | cs => (digits? Char.isDigit fuel cs).map fun (ds, rest) => (negative, ds, rest)

/-- An exponent after its letter. -/
def exponent? (fuel : Nat) : List Char → Option (Int × List Char)
  | c :: rest =>
    if c = 'e' || c = 'E' then
      let (negative, rest) := sign rest
      (digits? Char.isDigit fuel rest).map fun (ds, rest) =>
        let n : Int := Decimal.value ds
        (if negative then -n else n, rest)
    else none
  | [] => none

/-- The bits of the double below all others. -/
def negativeInfinity : UInt64 := 0xFFF0000000000000

/-- The number with the given sign, digits and exponent; only below is there no bound. -/
def realOf? (negative : Bool) (ds : List Char) (exponent : Int) : Option Toml :=
  match Decimal.double? negative (Decimal.value ds) exponent with
  | some bits => some (real bits)
  | none => if negative then some (real negativeInfinity) else none

/-- A number with a fraction, an exponent or both. -/
def real? (fuel : Nat) (cs : List Char) : Option (Toml × List Char) := do
  let (negative, ds, rest) ← whole? fuel cs
  match rest with
  | '.' :: rest => do
    let (places, rest) ← digits? Char.isDigit fuel rest
    let (exponent, rest) := (exponent? fuel rest).getD (0, rest)
    let value ← realOf? negative (ds ++ places) (exponent - places.length)
    some (value, rest)
  | rest => do
    let (exponent, rest) ← exponent? fuel rest
    let value ← realOf? negative ds exponent
    some (value, rest)

/-- Infinity or no number at all, with or without a sign. -/
def specialReal? (cs : List Char) : Option (Toml × List Char) :=
  let (negative, cs) := sign cs
  let signed (bits : UInt64) : Toml := real (bits + if negative then Decimal.signBit else 0)
  match cs with
  | 'i' :: 'n' :: 'f' :: rest => some (signed 0x7FF0000000000000, rest)
  | 'n' :: 'a' :: 'n' :: rest => some (signed 0x7FF8000000000000, rest)
  | _ => none

/-- The value of a digit of a base up to sixteen. -/
def digitIn? (base : Nat) (c : Char) : Option Nat :=
  (Hexadecimal.value? c).filter fun k => k < base

/-- A whole number in the given base, read after its prefix. -/
def prefixed? (fuel base : Nat) (cs : List Char) : Option (Toml × List Char) := do
  let (ds, rest) ← digits? (fun c => (digitIn? base c).isSome) fuel cs
  let n ← Decimal.valueIn base (digitIn? base) ds
  if n < Nat.pow 2 63 then some (integer n, rest) else none

/-- A whole number. -/
def integer? (fuel : Nat) : List Char → Option (Toml × List Char)
  | '0' :: 'x' :: rest => prefixed? fuel 16 rest
  | '0' :: 'o' :: rest => prefixed? fuel 8 rest
  | '0' :: 'b' :: rest => prefixed? fuel 2 rest
  | cs => do
    let (negative, ds, rest) ← whole? fuel cs
    let n : Int := Decimal.value ds
    let n := if negative then -n else n
    if -(Nat.pow 2 63 : Int) ≤ n ∧ n < (Nat.pow 2 63 : Int) then some (integer n, rest) else none

/-! ### Dates and times -/

/-- So many digits, the number they write between two bounds, and the rest. -/
def field? (count least most : Nat) (cs : List Char) : Option (Nat × List Char) :=
  let ds := cs.take count
  let n := Decimal.value ds
  if ds.length = count && ds.all Char.isDigit && least ≤ n && n ≤ most then
    some (n, cs.drop count)
  else none

/-- The text after a character. -/
def after? (c : Char) : List Char → Option (List Char)
  | d :: rest => if d = c then some rest else none
  | [] => none

/-- The text after a date. -/
def date? (cs : List Char) : Option (List Char) := do
  let (year, cs) ← field? 4 0 9999 cs
  let (month, cs) ← field? 2 1 12 (← after? '-' cs)
  let (day, cs) ← field? 2 1 31 (← after? '-' cs)
  if day ≤ Date.daysIn year month then some cs else none

/-- The text after a time of day. -/
def timeOfDay? (cs : List Char) : Option (List Char) := do
  let (_, cs) ← field? 2 0 23 cs
  let (_, cs) ← field? 2 0 59 (← after? ':' cs)
  let (_, cs) ← field? 2 0 60 (← after? ':' cs)
  match cs with
  | '.' :: d :: rest => some (if d.isDigit then rest.dropWhile Char.isDigit else cs)
  | _ => some cs

/-- The text after an offset from universal time, if there is one. -/
def skipOffset (cs : List Char) : List Char :=
  match cs with
  | c :: rest =>
    if c = 'Z' || c = 'z' then rest
    else if c = '+' || c = '-' then
      (do
        let (_, rest) ← field? 2 0 23 rest
        let (_, rest) ← field? 2 0 59 (← after? ':' rest)
        some rest).getD cs
    else cs
  | [] => []

/-- The text after a date, a time of day, or a date with a time and perhaps an offset. -/
def afterTime? (cs : List Char) : Option (List Char) :=
  match date? cs with
  | some rest =>
    match rest with
    | c :: more =>
      if c = 'T' || c = 't' || c = ' ' then
        match timeOfDay? more with
        | some more => some (skipOffset more)
        | none => some rest
      else some rest
    | [] => some []
  | none => timeOfDay? cs

/-- A date, a time of day or both. -/
def time? (cs : List Char) : Option (Toml × List Char) :=
  (afterTime? cs).map fun rest =>
    (time (String.ofList (cs.take (cs.length - rest.length))), rest)

/-! ### Values -/

/-- A value that is no list and no table. -/
def scalar? (fuel : Nat) (cs : List Char) : Option (Toml × List Char) :=
  match cs with
  | 't' :: 'r' :: 'u' :: 'e' :: rest => some (boolean true, rest)
  | 'f' :: 'a' :: 'l' :: 's' :: 'e' :: rest => some (boolean false, rest)
  | c :: _ =>
    if c = '"' || c = '\'' then (text? fuel cs).map fun (s, rest) => (text s, rest)
    else time? cs <|> real? fuel cs <|> specialReal? cs <|> integer? fuel cs
  | [] => none

/-- The items of a list after its bracket; a comma may follow the last one. -/
def items? (item : List Char → Option (Toml × List Char)) (limit : Nat) :
    Nat → List Toml → List Char → Option (List Toml × List Char)
  | 0, _, _ => none
  | fuel + 1, seen, cs =>
    match skipLines limit cs with
    | ']' :: rest => some (seen.reverse, rest)
    | cs => do
      let (value, rest) ← item cs
      match skipLines limit rest with
      | ',' :: rest => items? item limit fuel (value :: seen) rest
      | ']' :: rest => some ((value :: seen).reverse, rest)
      | _ => none

/-- A key and its value within a line. -/
def pair? (item : List Char → Option (Toml × List Char)) (limit : Nat) (cs : List Char) :
    Option (List String × String × Toml × List Char) := do
  let (path, key, rest) ← key? limit cs
  let (value, rest) ← item (skipSpace (← after? '=' rest))
  some (path, key, value, rest)

/-- The fields of a table in braces after the first of them, of which there is at least one. -/
def fields? (item : List Char → Option (Toml × List Char)) (limit : Nat) :
    Nat → Fields → List Char → Option (Fields × List Char)
  | 0, _, _ => none
  | fuel + 1, seen, cs => do
    let (path, key, value, rest) ← pair? item limit cs
    let seen ← insert? path key value .braces seen
    match skipSpace rest with
    | ',' :: rest => fields? item limit fuel seen rest
    | '\x7d' :: rest => some (seen, rest)
    | _ => none

/-- A value nested at most as deep as the second argument says. The first argument bounds the
number of items, fields and characters. -/
def value? (limit : Nat) : Nat → List Char → Option (Toml × List Char)
  | 0, cs => scalar? limit cs
  | depth + 1, cs =>
    match cs with
    | '[' :: rest =>
      (items? (value? limit depth) limit limit [] rest).map fun (xs, rest) => (array xs, rest)
    | '\x7b' :: rest =>
      match skipSpace rest with
      | '\x7d' :: rest => some (table .braces [], rest)
      | rest =>
        (fields? (value? limit depth) limit limit [] rest).map fun (xs, rest) =>
          (table .braces xs, rest)
    | cs => scalar? limit cs

/-! ### Documents -/

/-- A header after its first bracket: whether it is shared, and its key. -/
def header? (fuel : Nat) (cs : List Char) :
    Option (Bool × List String × String × List Char) := do
  match cs with
  | '[' :: rest => do
    let (path, key, rest) ← key? fuel rest
    let rest ← lineRest? (← after? ']' (← after? ']' rest))
    some (true, path, key, rest)
  | rest => do
    let (path, key, rest) ← key? fuel rest
    let rest ← lineRest? (← after? ']' rest)
    some (false, path, key, rest)

/-- Reads lines: `here` is the path of the table they belong to. -/
def lines? (limit : Nat) : Nat → (here : List String) → Fields → List Char → Option Fields
  | 0, _, _, _ => none
  | fuel + 1, here, fields, cs =>
    match skipSpace cs with
    | [] => some fields
    | '#' :: rest => do lines? limit fuel here fields (← lineEnd? (skipComment ('#' :: rest)))
    | '[' :: rest => do
      let (shared, path, key, rest) ← header? limit rest
      lines? limit fuel (path ++ [key]) (← open? shared path key fields) rest
    | c :: rest =>
      if c = '\n' || c = '\r' then do lines? limit fuel here fields (← newLine? (c :: rest))
      else do
        let (path, key, value, rest) ← pair? (value? limit (maxDepth - 1)) limit (c :: rest)
        lines? limit fuel here (← insertBelow? here path key value fields) (← lineRest? rest)

/-- The document that a text writes; a byte order mark may stand before it. -/
def parse? (source : String) : Option Toml :=
  let cs := match source.toList with
    | '\uFEFF' :: rest => rest
    | cs => cs
  let limit := cs.length + 1
  (lines? limit limit [] [] cs).map (table .header)

end Toml

end PackageScan
