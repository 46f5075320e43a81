/-!
# The shortest decimal that reads back

A binary floating point number is known by the interval of reals that round to it. Among the
decimals in that interval `Decimal.shortest` picks one with the fewest digits, and of those the
one nearest to the number. All arithmetic is on natural numbers: a number is `m · 2^q`, and
both sides of each comparison are scaled until no fraction is left.
-/

namespace PackageScan

namespace Decimal

/-- A positive decimal `digits · 10^exponent`. -/
structure Positive where
  /-- The digits, read as one number. -/
  digits : Nat
  /-- The power of ten of the last digit. -/
  exponent : Int
  deriving DecidableEq, Repr

/-- A ratio of two natural numbers, the second one positive. -/
structure Ratio where
  /-- Numerator. -/
  num : Nat
  /-- Denominator. -/
  den : Nat

/-- The ratio `m · 2^q`. -/
def Ratio.ofBinary (m : Nat) (q : Int) : Ratio :=
  if q < 0 then ⟨m, Nat.pow 2 q.natAbs⟩ else ⟨m * Nat.pow 2 q.toNat, 1⟩

/-- The ratio `d · 10^k`. -/
def Ratio.ofDecimal (d : Nat) (k : Int) : Ratio :=
  if k < 0 then ⟨d, Nat.pow 10 k.natAbs⟩ else ⟨d * Nat.pow 10 k.toNat, 1⟩

/-- Comparison by cross-multiplication. -/
def Ratio.le (a b : Ratio) : Bool := a.num * b.den ≤ b.num * a.den

/-- Strict comparison by cross-multiplication. -/
def Ratio.lt (a b : Ratio) : Bool := a.num * b.den < b.num * a.den

/-- Distance of two ratios. -/
def Ratio.dist (a b : Ratio) : Ratio :=
  let x := a.num * b.den
  let y := b.num * a.den
  ⟨(x - y) + (y - x), a.den * b.den⟩

/-- The largest whole number at most `r / 10^k`. -/
def Ratio.floorDiv (r : Ratio) (k : Int) : Nat :=
  if k < 0 then r.num * Nat.pow 10 k.natAbs / r.den else r.num / (r.den * Nat.pow 10 k.toNat)

/-- The number of decimal digits of the integer part, or minus the number of zeros after the
point of a fraction below one. -/
def Ratio.magnitude (r : Ratio) : Int :=
  let whole := r.num / r.den
  if whole = 0 then
    let inverse := r.den / r.num
    let guess : Int := -((Nat.repr inverse).length : Int)
    if (Ratio.ofDecimal 1 guess).le r then guess + 1 else guess
  else (Nat.repr whole).length

/-- The candidate with the given number of digits: of the two neighbours on that decimal grid
those that lie in the interval, the nearer one first. -/
private def candidate (value low high : Ratio) (closed : Bool) (count : Nat) :
    Option Positive :=
  let k := value.magnitude - count
  let d := value.floorDiv k
  let within (x : Ratio) : Bool :=
    if closed then low.le x && x.le high else low.lt x && x.lt high
  let down := Ratio.ofDecimal d k
  let up := Ratio.ofDecimal (d + 1) k
  -- the next power of ten needs one digit only
  let next : Positive := if d + 1 = Nat.pow 10 count then ⟨1, k + count⟩ else ⟨d + 1, k⟩
  match d != 0 && within down, within up with
  | true, true =>
    let below := down.dist value
    let above := up.dist value
    if below.lt above then some ⟨d, k⟩
    else if above.lt below then some next
    else if d % 2 = 0 then some ⟨d, k⟩ else some next
  | true, false => some ⟨d, k⟩
  | false, true => some next
  | false, false => none

/-- The first hit while the number of digits grows; seventeen digits always suffice. -/
private def search (value low high : Ratio) (closed : Bool) : Nat → Nat → Positive
  | 0, _ => ⟨0, 0⟩
  | left + 1, count =>
    (candidate value low high closed count).getD (search value low high closed left (count + 1))

/-- The shortest decimal that rounds to the positive finite double with the given bits. -/
def shortest (bits : UInt64) : Positive :=
  let fraction := bits.toNat % Nat.pow 2 52
  let exponent := bits.toNat / Nat.pow 2 52 % Nat.pow 2 11
  let m := if exponent = 0 then fraction else fraction + Nat.pow 2 52
  let q : Int := (if exponent = 0 then 1 else exponent : Nat) - 1075
  let narrowBelow := fraction = 0 && 1 < exponent
  let value := Ratio.ofBinary m q
  let low := if narrowBelow then Ratio.ofBinary (4 * m - 1) (q - 2)
    else Ratio.ofBinary (2 * m - 1) (q - 1)
  let high := Ratio.ofBinary (2 * m + 1) (q - 1)
  search value low high (m % 2 = 0) 17 1

end Decimal

end PackageScan
