import PackageScan.Text.Hexadecimal

/-!
# Universally unique identifiers

An identifier of 128 bits. It is written as thirty-two lower-case digits, in groups of 8, 4, 4,
4 and 12 with hyphens between them (`Uuid.render`) or without (`Uuid.renderSimple`). Both forms
are read, with digits of either case, and the hyphenated one also inside braces or as a name in
the `urn:uuid:` space.
-/

namespace PackageScan

/-- An identifier of 128 bits. -/
structure Uuid where
  /-- The bits as a number. -/
  bits : BitVec 128
  deriving DecidableEq, Repr

namespace Uuid

/-- The identifier with the given number, modulo `2 ^ 128`. -/
def ofNat (n : Nat) : Uuid := ⟨BitVec.ofNat 128 n⟩

/-- The identifier of the fourth version, which is made of random bits: all but six of its bits
are the given ones. -/
def ofRandom (n : Nat) : Uuid :=
  ⟨(BitVec.ofNat 128 n &&& ~~~(0xf#128 <<< 76 ||| 0x3#128 <<< 62)) |||
    (0x4#128 <<< 76 ||| 0x2#128 <<< 62)⟩

/-- The lowest hexadecimal digits of a number, as many as asked for. -/
def lowDigits : Nat → Nat → List Char
  | 0, _ => []
  | count + 1, n => lowDigits count (n / 16) ++ [Hexadecimal.lower (n % 16)]

/-- The thirty-two digits. -/
def digits (u : Uuid) : List Char := lowDigits 32 u.bits.toNat

/-- The digits without hyphens. -/
def renderSimple (u : Uuid) : String := String.ofList u.digits

/-- Cuts a list into pieces of the given lengths. -/
def groups {α : Type} : List Nat → List α → List (List α)
  | [], _ => []
  | n :: ns, xs => xs.take n :: groups ns (xs.drop n)

/-- Lengths of the groups between the hyphens. -/
def groupLengths : List Nat := [8, 4, 4, 4, 12]

/-- The digits in groups with hyphens between them. -/
def render (u : Uuid) : String :=
  "-".intercalate ((groups groupLengths u.digits).map String.ofList)

/-- The identifier that thirty-two digits write. -/
def ofDigits? (cs : List Char) : Option Uuid :=
  if cs.length = 32 then
    (cs.foldlM (fun n c => (Hexadecimal.value? c).map fun d => n * 16 + d) 0).map ofNat
  else none

/-- The digits of a text with hyphens between the groups. -/
def ungroup? : List Nat → List Char → Option (List Char)
  | [], _ => none
  | [n], cs => if cs.length = n then some cs else none
  | n :: ns, cs =>
    match cs.drop n with
    | '-' :: rest => (ungroup? ns rest).map fun ds => cs.take n ++ ds
    | _ => none

/-- The identifier that a text with hyphens writes. -/
def ofHyphenated? (cs : List Char) : Option Uuid := (ungroup? groupLengths cs).bind ofDigits?

/-- The identifier that a text writes in any of its forms. -/
def parse? (text : String) : Option Uuid :=
  match text.toList with
  | '\x7b' :: rest =>
    if rest.getLast? = some '\x7d' then ofHyphenated? rest.dropLast else none
  | 'u' :: 'r' :: 'n' :: ':' :: 'u' :: 'u' :: 'i' :: 'd' :: ':' :: rest => ofHyphenated? rest
  | cs => if cs.length = 32 then ofDigits? cs else ofHyphenated? cs

end Uuid

end PackageScan
