import PackageScan.Regex.Size
import PackageScan.Rule.Declaration
import PackageScan.Rule.Rejection

/-!
# Patterns of declared strings

A declared string is compiled to a `Pattern`: one or two variants, each a byte pattern, of which
the wide one has a zero byte after each byte. `Pattern.count` is the number of offsets at which
a variant occurs, overlapping occurrences included; with `fullword` only those count that no
letter or digit stands next to.

Occurrences are counted with a `Searcher`, one search after another, each from the offset right
after the beginning of the last occurrence.
-/

namespace PackageScan

/-- One form of a string. -/
structure Variant where
  /-- What occurs. -/
  regex : Regex
  /-- A zero byte follows each byte. -/
  wide : Bool

/-- What a declared string looks for. -/
structure Pattern where
  /-- The name of the string. -/
  name : String
  /-- Its forms. -/
  variants : List Variant
  /-- Count an occurrence only if no letter or digit stands next to it. -/
  fullword : Bool

namespace Pattern

/-! ### Counting -/

/-- Is there a letter or digit at the offset? -/
def isWordAt (data : ByteArray) (p : Nat) : Bool :=
  (byteAt? data p).any ByteSet.alnum.contains

/-- Stands a letter or digit neither right after an occurrence nor one character before it? A
character of the wide form has two bytes. -/
def isWordBounded (data : ByteArray) (wide : Bool) (start stop : Nat) : Bool :=
  let step := if wide then 2 else 1
  !(step ≤ start && isWordAt data (start - step)) && !isWordAt data stop

/-- Counts the occurrences from an offset on that pass a test, on top of those counted so far.
The first argument bounds the number of searches. -/
def countFrom (searcher : Searcher) (accept : Nat → Bool) : Nat → Nat → Nat → Nat
  | 0, _, counted => counted
  | fuel + 1, position, counted =>
    match searcher.next? position with
    | none => counted
    | some start =>
      countFrom searcher accept fuel (start + 1) (if accept start then counted + 1 else counted)

/-- Counts the occurrences that a searcher finds in the data. -/
def countWith (searcher : Searcher) (data : ByteArray) (fullword wide : Bool) : Nat :=
  let accept (start : Nat) : Bool :=
    !fullword || isWordBounded data wide start (searcher.stop start)
  countFrom searcher accept (data.size + 1) 0 0

/-- Number of occurrences of a form. -/
def countVariant (fullword : Bool) (data : ByteArray) (v : Variant) : Nat :=
  countWith (v.regex.searcher data) data fullword v.wide

/-- Number of occurrences of all forms. -/
def count (p : Pattern) (data : ByteArray) : Nat :=
  (p.variants.map (countVariant p.fullword data)).foldl (· + ·) 0

/-! ### Compiling -/

/-- The pattern of given bytes. -/
def literal (nocase : Bool) (bytes : List UInt8) : Regex :=
  let one (b : UInt8) : Regex :=
    .set (if nocase then (ByteSet.single b).foldCase else ByteSet.single b)
  match bytes with
  | [] => .empty
  | b :: rest => rest.foldl (fun acc b => .seq acc (one b)) (one b)

/-- Bytes with a zero byte after each. -/
def widen (bytes : List UInt8) : List UInt8 := bytes.flatMap fun b => [b, 0]

/-- A form that keeps to the limit. -/
def build (limit : Nat) (regex : Regex) (wide : Bool) : Except RegexFault Variant :=
  if regex.fits limit then .ok { regex, wide } else .error (.programTooLarge limit)

/-- The forms of given bytes. -/
def textVariants (limit : Nat) (bytes : List UInt8) (m : StringModifiers) :
    Except RegexFault (List Variant) := do
  let plain ←
    if m.matchesAscii then do .ok [← build limit (literal m.nocase bytes) false] else .ok []
  let wide ←
    if m.wide then do .ok [← build limit (literal m.nocase (widen bytes)) true] else .ok []
  .ok (plain ++ wide)

/-- The form of a hex string. -/
def hexVariant (limit : Nat) (body : String) : Except HexFault Variant := do
  let h ← Hex.parse body
  (build limit h.regex false).mapError fun _ => .programTooLarge limit

/-- The form of a regular expression. -/
def regexVariant (limit : Nat) (literal : RegexLiteral) (nocase : Bool) :
    Except RegexFault Variant := do
  let flags : Regex.Flags :=
    { ignoreCase := literal.caseInsensitive || nocase, dotAll := literal.dotMatchesNewline }
  build limit (← Regex.parse flags literal.pattern) false

/-- Compiles a declared string; programs are bounded by `limit`. -/
def compile (limit : Nat) (decl : StringDecl) : Except ValidationError Pattern := do
  let variants ← match decl.value with
    | .text bytes =>
      (textVariants limit bytes decl.modifiers).mapError fun reason =>
        ⟨.invalidRegex decl.name reason, decl.span⟩
    | .hex body =>
      ((hexVariant limit body).map fun v => [v]).mapError fun reason =>
        ⟨.invalidHexString decl.name reason, decl.span⟩
    | .regex literal =>
      ((regexVariant limit literal decl.modifiers.nocase).map fun v => [v]).mapError fun reason =>
        ⟨.invalidRegex decl.name reason, decl.span⟩
  .ok { name := decl.name, variants, fullword := decl.modifiers.fullword }

end Pattern

end PackageScan
