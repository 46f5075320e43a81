/-!
# Hexadecimal digits
-/

namespace PackageScan

namespace Hexadecimal

/-- Value of a hexadecimal digit of either case. -/
def value? (c : Char) : Option Nat :=
  if '0' ≤ c ∧ c ≤ '9' then some (c.toNat - 48)
  else if 'a' ≤ c ∧ c ≤ 'f' then some (c.toNat - 87)
  else if 'A' ≤ c ∧ c ≤ 'F' then some (c.toNat - 55)
  else none

/-- Is the character a hexadecimal digit? -/
def isDigit (c : Char) : Bool := (value? c).isSome

/-- Lower-case digit of a value below sixteen. -/
def lower (n : Nat) : Char := if n < 10 then Char.ofNat (48 + n) else Char.ofNat (87 + n)

/-- Upper-case digit of a value below sixteen. -/
def upper (n : Nat) : Char := if n < 10 then Char.ofNat (48 + n) else Char.ofNat (55 + n)

/-- The two lower-case digits of a byte. -/
def lowerByte (b : UInt8) : List Char := [lower (b.toNat / 16), lower (b.toNat % 16)]

/-- The two upper-case digits of a byte. -/
def upperByte (b : UInt8) : List Char := [upper (b.toNat / 16), upper (b.toNat % 16)]

/-- Bytes as pairs of lower-case digits. -/
def encode (bytes : List UInt8) : String := String.ofList (bytes.flatMap lowerByte)

/-- The bytes that pairs of digits write. -/
def decode? : List Char → Option (List UInt8)
  | [] => some []
  | [_] => none
  | high :: low :: rest => do
    let h ← value? high
    let l ← value? low
    let bytes ← decode? rest
    some ((h * 16 + l).toUInt8 :: bytes)

end Hexadecimal

end PackageScan
