import PackageScan.Limits
import PackageScan.Regex.Parser

/-!
# Hex strings

The body of a hex string describes runs of bytes: bytes with known or unknown halves, jumps over
a number of arbitrary bytes, and groups of alternatives. `Hex.parse` reads a body, which
`Hex.Describes` gives a meaning of its own; `Hex.regex` turns it into a pattern and `Hex.render`
writes that pattern as a regular expression.

White space may stand anywhere but inside a byte or a number. A jump may neither begin nor end
the body or an alternative, and groups nest at most `Limits.hexNesting` deep; the reader is
structural in the depth that is left.
-/

namespace PackageScan

/-- Why a hex string cannot be used. -/
inductive HexFault where
  /-- The body describes no byte. -/
  | noBytes
  | jumpAtStart
  | jumpAtEnd
  | unbalancedOpening
  | unbalancedClosing
  | alternationOutsideGroup
  | tooDeep
  | emptyAlternative
  | incompleteByte
  /-- The character is no hexadecimal digit. -/
  | invalidDigit (c : Char)
  | invalidJump
  | unterminatedJump
  /-- The bounds of a jump are in the wrong order. -/
  | reversedJump (least most : Nat)
  | jumpTooLarge
  /-- The program of the hex string is beyond the limit. -/
  | programTooLarge (limit : Nat)
  deriving DecidableEq, Repr

/-- The fault in words. -/
def HexFault.message : HexFault → String
  | noBytes => "hex string contains no bytes"
  | jumpAtStart => "jump at start of hex string or alternative"
  | jumpAtEnd => "jump at end of hex string or alternative"
  | unbalancedOpening => "unbalanced '('"
  | unbalancedClosing => "unbalanced ')'"
  | alternationOutsideGroup => "alternation outside parentheses"
  | tooDeep => "alternations nested too deeply"
  | emptyAlternative => "empty alternative"
  | incompleteByte => "incomplete byte"
  | invalidDigit c => s!"invalid hex digit '{c}'"
  | invalidJump => "invalid jump"
  | unterminatedJump => "unterminated jump"
  | reversedJump least most => s!"invalid jump range [{least}-{most}]"
  | jumpTooLarge => s!"jump too large (max {Limits.hexJump})"
  | programTooLarge limit => (RegexFault.programTooLarge limit).message

/-- The body of a hex string. -/
inductive Hex where
  /-- A byte, the halves of which are known or not. -/
  | byte (high low : Option Nat)
  /-- So many arbitrary bytes. -/
  | jump (least : Nat) (most : Option Nat)
  /-- One part after another. -/
  | seq (left right : Hex)
  /-- The alternatives between parentheses. -/
  | group (alternatives : Hex)
  /-- Either of two. -/
  | alt (left right : Hex)
  deriving DecidableEq, Repr

namespace Hex

/-! ### Meaning -/

/-- Does a byte have the given halves? -/
def matchesByte (high low : Option Nat) (b : UInt8) : Bool :=
  (high.all fun h => b.toNat / 16 == h) && (low.all fun l => b.toNat % 16 == l)

/-- The bytes of the data from `p` up to `q` are a run that the body describes. -/
def Describes (data : ByteArray) : Hex → Nat → Nat → Prop
  | byte high low, p, q => q = p + 1 ∧ ∃ b, byteAt? data p = some b ∧ matchesByte high low b
  | jump least most, p, q =>
    q ≤ data.size ∧ p + least ≤ q ∧ (∀ m ∈ most, q ≤ p + m)
  | seq left right, p, q => ∃ m, left.Describes data p m ∧ right.Describes data m q
  | group alternatives, p, q => alternatives.Describes data p q
  | alt left right, p, q => left.Describes data p q ∨ right.Describes data p q

/-! ### The body as a regular expression -/

/-- The pattern of the body. -/
def regex : Hex → Regex
  | byte high low => .set ⟨matchesByte high low⟩
  | jump least most => .repeated (.set .all) least most true
  | seq left right => .seq left.regex right.regex
  | group alternatives => alternatives.regex
  | alt left right => .alt left.regex right.regex

/-- The escape of a byte in a regular expression. -/
def renderByte (n : Nat) : List Char :=
  '\\' :: 'x' :: Hexadecimal.upperByte n.toUInt8

/-- Any byte at all. -/
def renderAny : List Char := "(?s-u:.)".toList

/-- The body as a regular expression. -/
def renderChars : Hex → List Char
  | byte (some h) (some l) => renderByte (h * 16 + l)
  | byte none none => renderAny
  | byte (some h) none =>
    '[' :: renderByte (h * 16) ++ '-' :: renderByte (h * 16 + 15) ++ [']']
  | byte none (some l) =>
    '[' :: ((List.range 16).flatMap fun h => renderByte (h * 16 + l)) ++ [']']
  | jump least most =>
    let upper := match most with
      | some m => (Nat.repr m).toList
      | none => []
    renderAny ++ '\x7b' :: (Nat.repr least).toList ++ ',' :: upper ++ ['\x7d']
  | seq left right => left.renderChars ++ right.renderChars
  | group alternatives => "(?:".toList ++ alternatives.renderChars ++ [')']
  | alt left right => left.renderChars ++ '|' :: right.renderChars

/-- The body as a regular expression. -/
def render (h : Hex) : String := String.ofList h.renderChars

/-! ### Reading -/

/-- Characters that are still to be read. -/
abbrev Chars := List Char

/-- The text after leading white space. -/
def skip (cs : Chars) : Chars := cs.dropWhile Text.isBlank

/-- One half of a byte. -/
def readHalf : Chars → Except HexFault (Option Nat × Chars)
  | [] => .error .incompleteByte
  | c :: rest =>
    if c = '?' then .ok (none, rest)
    else
      match Hexadecimal.value? c with
      | some n => .ok (some n, rest)
      | none => .error (.invalidDigit c)

/-- A byte. -/
def readByte (cs : Chars) : Except HexFault (Hex × Chars) := do
  let (high, rest) ← readHalf cs
  let (low, rest) ← readHalf rest
  .ok (.byte high low, rest)

/-- A number, unless there is none or it does not fit thirty-two bits. -/
def readNumber (cs : Chars) : Option Nat × Chars :=
  let cs := skip cs
  let digits := cs.takeWhile Char.isDigit
  let rest := cs.drop digits.length
  if digits.isEmpty then (none, rest)
  else if 10 < (digits.dropWhile (· == '0')).length then (none, rest)
  else
    let value := digits.foldl (fun n d => n * 10 + (d.toNat - 48)) 0
    (if value < Nat.pow 2 32 then some value else none, rest)

/-- The bounds of a jump after its bracket. -/
def readBounds (cs : Chars) : Except HexFault (Nat × Option Nat × Chars) :=
  let (low, rest) := readNumber cs
  match skip rest, low with
  | '-' :: rest, _ =>
    let (high, rest) := readNumber rest
    .ok (low.getD 0, high, rest)
  | rest, some n => .ok (n, some n, rest)
  | _, none => .error .invalidJump

/-- A jump after its bracket. -/
def readJump (cs : Chars) : Except HexFault (Hex × Chars) := do
  let (least, most, rest) ← readBounds cs
  match skip rest with
  | ']' :: rest =>
    match most with
    | some m =>
      if m < least then .error (.reversedJump least m)
      else if Limits.hexJump < m then .error .jumpTooLarge
      else .ok (.jump least most, rest)
    | none =>
      if Limits.hexJump < least then .error .jumpTooLarge else .ok (.jump least none, rest)
  | _ => .error .unterminatedJump

/-- Is the part a jump? -/
def isJump : Hex → Bool
  | jump _ _ => true
  | _ => false

/-- The parts of a body or of an alternative as one; a jump at either end is refused. Nothing
stands for no parts. -/
def ofParts (parts : List Hex) : Except HexFault (Option Hex) :=
  match parts with
  | [] => .ok none
  | first :: others =>
    if first.isJump then .error .jumpAtStart
    else if (others.getLast?.any isJump) then .error .jumpAtEnd
    else .ok (some (others.foldl .seq first))

/-- The parts up to a bar, a closing parenthesis or the end, those read so far in reverse;
`group` reads a group after its parenthesis. The first argument bounds the number of parts. -/
def readParts (group : Chars → Except HexFault (Hex × Chars)) :
    Nat → List Hex → Chars → Except HexFault (Option Hex × Chars)
  | 0, seen, cs => do .ok (← ofParts seen.reverse, cs)
  | fuel + 1, seen, cs =>
    match skip cs with
    | '[' :: rest => do
      let (part, rest) ← readJump rest
      readParts group fuel (part :: seen) rest
    | '(' :: rest => do
      let (part, rest) ← group rest
      readParts group fuel (part :: seen) rest
    | c :: rest =>
      if c = '|' ∨ c = ')' then do .ok (← ofParts seen.reverse, c :: rest)
      else do
        let (part, rest) ← readByte (c :: rest)
        readParts group fuel (part :: seen) rest
    | [] => do .ok (← ofParts seen.reverse, [])

/-- The alternatives of a group up to its closing parenthesis. The first argument bounds their
number. -/
def readAlternatives (sequence : Chars → Except HexFault (Option Hex × Chars)) :
    Nat → Option Hex → Chars → Except HexFault (Hex × Chars)
  | 0, _, _ => .error .unbalancedOpening
  | fuel + 1, seen, cs => do
    match ← sequence cs with
    | (none, _) => .error .emptyAlternative
    | (some part, rest) =>
      let all := match seen with
        | some earlier => .alt earlier part
        | none => part
      match skip rest with
      | '|' :: rest => readAlternatives sequence fuel (some all) rest
      | ')' :: rest => .ok (.group all, rest)
      | _ => .error .unbalancedOpening

/-- The parts up to a bar, a closing parenthesis or the end, inside which groups nest at most so
deep. The first argument bounds the numbers of parts and of alternatives. -/
def readSequence (limit : Nat) : Nat → Chars → Except HexFault (Option Hex × Chars)
  | 0 => readParts (fun _ => .error .tooDeep) limit []
  | depth + 1 => readParts (readAlternatives (readSequence limit depth) limit none) limit []

/-- Reads the body of a hex string. -/
def parse (body : String) : Except HexFault Hex := do
  let cs := body.toList
  match ← readSequence (cs.length + 1) Limits.hexNesting cs with
  | (_, ')' :: _) => .error .unbalancedClosing
  | (_, '|' :: _) => .error .alternationOutsideGroup
  | (none, _) => .error .noBytes
  | (some h, _) => .ok h

end Hex

end PackageScan
