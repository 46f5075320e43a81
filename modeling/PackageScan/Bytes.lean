/-!
# Reading bytes

The byte at an offset, and numbers that are written with their lowest byte first. Reading past
the end gives nothing.
-/

namespace PackageScan

/-- The byte at an offset. -/
def byteAt? (data : ByteArray) (p : Nat) : Option UInt8 :=
  if h : p < data.size then some data[p] else none

/-- The number of `width` bytes at an offset, the lowest byte first. -/
def numberAt? (data : ByteArray) (p : Nat) : Nat → Option Nat
  | 0 => some 0
  | width + 1 => do
    let low ← byteAt? data p
    let high ← numberAt? data (p + 1) width
    some (low.toNat + 256 * high)

end PackageScan
