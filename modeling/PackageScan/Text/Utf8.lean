/-!
# Reading bytes as UTF-8

`Utf8.decodeLossy` reads any byte string: each maximal ill-formed part is read as one
replacement character. It is built on `Utf8.next`, which looks at the head of a byte string and
says how many bytes it covers and whether they encode a character.
-/

namespace PackageScan

namespace Utf8

/-- The bytes of a character. -/
def encodeChar (c : Char) : List UInt8 := String.utf8EncodeChar c

/-- The bytes of a text. -/
def encode (s : String) : List UInt8 := s.toUTF8.toList

/-- Can the byte continue a character, and does it lie in the given range? -/
private def within (low high b : UInt8) : Bool := low ≤ b && b ≤ high

/-- The character with the given code, which the ranges of `next` keep valid. -/
private def scalar (n : Nat) : Option Char :=
  if h : n.isValidChar then some (Char.ofNatAux n h) else none

/-- Low six bits of a continuation byte. -/
private def tail (b : UInt8) : Nat := b.toNat % 64

/-- The head of a byte string that starts with `lead` and goes on with `rest`: the number of
bytes it covers, and the character they encode. Without a character, the bytes covered are the
longest start of an encoding that some character has, and at least one. -/
def next (lead : UInt8) (rest : List UInt8) : Nat × Option Char :=
  if lead < 0x80 then (1, scalar lead.toNat)
  else if within 0xC2 0xDF lead then
    match rest with
    | b1 :: _ =>
      if within 0x80 0xBF b1 then (2, scalar ((lead.toNat % 32) * 64 + tail b1)) else (1, none)
    | [] => (1, none)
  else if within 0xE0 0xEF lead then
    let low := if lead == 0xE0 then 0xA0 else 0x80
    let high := if lead == 0xED then 0x9F else 0xBF
    match rest with
    | b1 :: b2 :: _ =>
      if !within low high b1 then (1, none)
      else if !within 0x80 0xBF b2 then (2, none)
      else (3, scalar ((lead.toNat % 16) * 4096 + tail b1 * 64 + tail b2))
    | [b1] => if within low high b1 then (2, none) else (1, none)
    | [] => (1, none)
  else if within 0xF0 0xF4 lead then
    let low := if lead == 0xF0 then 0x90 else 0x80
    let high := if lead == 0xF4 then 0x8F else 0xBF
    match rest with
    | b1 :: more =>
      if !within low high b1 then (1, none)
      else match more with
        | b2 :: b3 :: _ =>
          if !within 0x80 0xBF b2 then (2, none)
          else if !within 0x80 0xBF b3 then (3, none)
          else (4, scalar ((lead.toNat % 8) * 262144 + tail b1 * 4096 + tail b2 * 64 + tail b3))
        | [b2] => if within 0x80 0xBF b2 then (3, none) else (2, none)
        | [] => (2, none)
    | [] => (1, none)
  else (1, none)

/-- What a byte string reads as: the character of each well-formed part, and nothing for each
ill-formed one. -/
def units : List UInt8 → List (Option Char)
  | [] => []
  | b :: rest => go [] (b :: rest).length (b :: rest)
where
  /-- Collects the parts in reverse; every part takes at least one byte, so the length of the
  byte string bounds their number. -/
  go (seen : List (Option Char)) : Nat → List UInt8 → List (Option Char)
    | n + 1, b :: rest =>
      let (width, unit) := next b rest
      go (unit :: seen) n (rest.drop (width - 1))
    | _, _ => seen.reverse

/-- The replacement character. -/
def replacement : Char := '\uFFFD'

/-- Every byte string as text, an ill-formed part as one replacement character. -/
def decodeLossy (bytes : List UInt8) : String :=
  String.ofList ((units bytes).map fun unit => unit.getD replacement)

/-- Does a byte string encode a text? -/
def isWellFormed (data : ByteArray) : Bool := data.validateUTF8

end Utf8

end PackageScan
