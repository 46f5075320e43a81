/-!
# Reading decimal numbers

The number that decimal digits write, and two doubles for a decimal number with an exponent: the
nearest one (`Decimal.double?`), and the one that rounding step by step leads to
(`Decimal.stepwiseDouble?`), which is the nearest one as well if the digits and the power of ten
are doubles themselves.
-/

namespace PackageScan

namespace Decimal

/-- The number that a run of decimal digits writes. -/
def value (ds : List Char) : Nat := ds.foldl (fun n d => n * 10 + (d.toNat - 48)) 0

/-- The number that digits of a base write, each with the value `digit?` gives it. -/
def valueIn (base : Nat) (digit? : Char → Option Nat) (ds : List Char) : Option Nat :=
  ds.foldlM (fun n d => (digit? d).map fun k => n * base + k) 0

/-- The bit of a double that makes it negative. -/
def signBit : UInt64 := 0x8000000000000000

/-- The bits of the double nearest to `digits · 10^exponent` with the given sign, unless that is
out of range. -/
def double? (negative : Bool) (digits : Nat) (exponent : Int) : Option UInt64 :=
  let sign : UInt64 := if negative then signBit else 0
  let size : Int := (Nat.repr digits).length + exponent
  if digits = 0 ∨ size < -400 then some sign
  else if 400 < size then none
  else
    let value :=
      if exponent < 0 then Float.ofScientific digits true exponent.natAbs
      else Float.ofScientific digits false exponent.toNat
    if value.isFinite then some (value.toBits + sign) else none

/-! ### Rounding step by step -/

/-- The number that the leading digits write after those of another number, as long as it has at
most sixty-four bits, and how many digits these are. -/
def leading : Nat → List Char → Nat × Nat
  | n, [] => (n, 0)
  | n, d :: ds =>
    let next := n * 10 + (d.toNat - 48)
    if next < Nat.pow 2 64 then
      let (m, count) := leading next ds
      (m, count + 1)
    else (n, 0)

/-- The greatest power of ten below the bound of doubles. -/
def maxPower : Nat := 308

/-- Divides by a power of ten, the greatest one at a time. Nothing of at most sixty-four bits is
left after the second time. -/
def lower (f : Float) : Nat → Nat → Float
  | 0, _ => 0
  | steps + 1, power =>
    if power ≤ maxPower then f / Float.ofScientific 1 false power
    else lower (f / Float.ofScientific 1 false maxPower) steps (power - maxPower)

/-- The bits of the double that `digits · 10^exponent` comes to when the digits are rounded first
and the product or quotient after that, unless that is out of range. The digits are a number of
at most sixty-four bits. -/
def stepwiseDouble? (negative : Bool) (digits : Nat) (exponent : Int) : Option UInt64 :=
  let sign : UInt64 := if negative then signBit else 0
  let f := digits.toUInt64.toFloat
  let value :=
    if exponent < 0 then lower f 3 exponent.natAbs
    else f * Float.ofScientific 1 false (min exponent.toNat (maxPower + 1))
  if digits = 0 then some sign else if value.isFinite then some (value.toBits + sign) else none

end Decimal

end PackageScan
