/-!
# Checksums of archive entries

The cyclic redundancy check of 32 bits with the reflected polynomial `0xEDB88320`. A byte is
folded into the remainder by one table lookup; the table holds the remainders of the 256 single
bytes.
-/

namespace PackageScan

namespace Crc32

/-- The remainder after one more bit. -/
def shift (r : UInt32) : UInt32 :=
  if r &&& 1 = 1 then (r >>> 1) ^^^ 0xEDB88320 else r >>> 1

/-- The remainder after a number of bits. -/
def shifts : Nat → UInt32 → UInt32
  | 0, r => r
  | n + 1, r => shifts n (shift r)

/-- The remainders of single bytes. -/
def table : Array UInt32 := Array.ofFn fun i : Fin 256 => shifts 8 i.val.toUInt32

/-- The remainder after one more byte. -/
def step (r : UInt32) (b : UInt8) : UInt32 :=
  table.getD ((r ^^^ b.toUInt32) &&& 0xFF).toNat 0 ^^^ (r >>> 8)

/-- The checksum of bytes. -/
def checksum (data : ByteArray) : UInt32 := data.foldl step 0xFFFFFFFF ^^^ 0xFFFFFFFF

end Crc32

end PackageScan
