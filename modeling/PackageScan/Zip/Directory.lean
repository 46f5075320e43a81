import PackageScan.Bytes
import PackageScan.Text.Cp437
import PackageScan.Text.Utf8

/-!
# The directory of a zip archive

A zip archive ends with a trailer that says where its directory is; the directory has a record
for every entry, and a record says where the entry starts. Other bytes may stand before the
archive, so all offsets are relative to its start, and after it.

`Zip.directory` reads the records. Sizes, checksum, method and flags of an entry are those of its
record; of the header in front of the entry only the signature and the two lengths that lead to
the content are read (`Zip.contentStart`).
-/

namespace PackageScan

namespace Zip

/-- Why the structure of an archive cannot be read. -/
inductive StructureFault where
  /-- The data is shorter than a trailer. -/
  | tooShort
  /-- No trailer. -/
  | noTrailer
  /-- A field reaches past the end. -/
  | pastEnd
  /-- The directory would start before the data. -/
  | misplacedDirectory
  /-- The archive is one part of several. -/
  | severalParts
  /-- No wide trailer where one is announced. -/
  | noWideTrailer
  /-- No record where one is due. -/
  | noRecord
  /-- A mark of encryption that is malformed. -/
  | malformedEncryption
  /-- No header in front of the content. -/
  | noHeader
  deriving DecidableEq, Repr

/-- The fault in words. -/
def StructureFault.message : StructureFault → String
  | tooShort => "invalid zip header"
  | noTrailer => "could not find central directory end"
  | pastEnd => "failed to fill whole buffer"
  | misplacedDirectory => "invalid central directory size or offset"
  | severalParts => "support for multi-disk files is not implemented"
  | noWideTrailer => "could not find wide central directory end"
  | noRecord => "invalid central directory header"
  | malformedEncryption => "invalid encryption field"
  | noHeader => "invalid local file header"

/-- The number at an offset, which has to be there. -/
def field (data : ByteArray) (p width : Nat) : Except StructureFault Nat :=
  match numberAt? data p width with
  | some n => .ok n
  | none => .error .pastEnd

/-! ### Records -/

/-- What the directory says about an entry. -/
structure Record where
  /-- Its name. -/
  name : String
  /-- Its content is encrypted. -/
  encrypted : Bool
  /-- How its content is compressed: not at all at 0, and as `Inflate` decodes at 8. -/
  method : Nat
  /-- Checksum of its content. -/
  checksum : UInt32
  /-- Number of bytes that its content takes up. -/
  packedSize : Nat
  /-- Declared number of bytes of its content. -/
  size : Nat
  /-- Where its header stands. -/
  start : Nat
  deriving DecidableEq, Repr

/-- A number of four bytes that says that a wide number stands elsewhere. -/
def wideMark : Nat := 0xFFFFFFFF

/-- Method number that says that the true method stands elsewhere. -/
def sealedMethod : Nat := 99

/-- Replaces the marks of a record by the wide numbers at an offset, as far as there are such
numbers. Gives the number of bytes read and whether a number was missing. -/
def widenRecord (extra : ByteArray) (p : Nat) (r : Record) : Record × Nat × Bool :=
  let widen (value taken : Nat) (missing : Bool) : Nat × Nat × Bool :=
    if missing || value ≠ wideMark then (value, taken, missing)
    else match numberAt? extra (p + taken) 8 with
      | some n => (n, taken + 8, false)
      | none => (value, taken, true)
  let (size, taken, missing) := widen r.size 0 false
  let (packedSize, taken, missing) := widen r.packedSize taken missing
  let (start, taken, missing) := widen r.start taken missing
  ({ r with size, packedSize, start }, taken, missing)

/-- The true method of an encrypted entry, from the eleven bytes at an offset; nothing if they
are cut off. -/
def trueMethod (extra : ByteArray) (p length : Nat) : Except StructureFault (Option Nat) :=
  if length ≠ 7 then .error .malformedEncryption
  else
    match numberAt? extra p 2, numberAt? extra (p + 2) 2, numberAt? extra (p + 4) 1,
      numberAt? extra (p + 5) 2 with
    | some version, some vendor, some strength, some method =>
      if vendor = 0x4541 && (version = 1 || version = 2) && 1 ≤ strength && strength ≤ 3 then
        .ok (some method)
      else .error .malformedEncryption
    | _, _, _, _ => .ok none

/-- Goes through the extra fields of a record from an offset on; `true` says that the true method
of an encrypted entry was among them. A field takes at least four bytes, so their number bounds
the number of fields, which is the first argument. -/
def readExtra (extra : ByteArray) : Nat → Nat → Record → Bool →
    Except StructureFault (Record × Bool)
  | 0, _, r, isSealed => .ok (r, isSealed)
  | fuel + 1, p, r, isSealed =>
    match numberAt? extra p 2, numberAt? extra (p + 2) 2 with
    | some kind, some length =>
      if kind = 1 then
        match widenRecord extra (p + 4) r with
        | (r, taken, false) => readExtra extra fuel (p + 4 + max taken length) r isSealed
        | (r, _, true) => .ok (r, isSealed)
      else if kind = 0x9901 then
        match trueMethod extra (p + 4) length with
        | .ok (some method) => readExtra extra fuel (p + 4 + length) { r with method } true
        | .ok none => .ok (r, isSealed)
        | .error fault => .error fault
      else readExtra extra fuel (p + 4 + length) r isSealed
    | _, _ => .ok (r, isSealed)

/-- The text of a name, the flags of the record given. -/
def nameOf (flags : Nat) (bytes : ByteArray) : String :=
  if flags.testBit 11 then Utf8.decodeLossy bytes.toList else Cp437.decode bytes.toList

/-- The record at an offset and the offset after it. The archive starts at `origin`. -/
def readRecord (data : ByteArray) (origin p : Nat) : Except StructureFault (Record × Nat) := do
  if (← field data p 4) ≠ 0x02014B50 then .error .noRecord
  let flags ← field data (p + 8) 2
  let method ← field data (p + 10) 2
  let checksum ← field data (p + 16) 4
  let packedSize ← field data (p + 20) 4
  let size ← field data (p + 24) 4
  let nameLength ← field data (p + 28) 2
  let extraLength ← field data (p + 30) 2
  let commentLength ← field data (p + 32) 2
  let start ← field data (p + 42) 4
  let nameStart := p + 46
  let extraStart := nameStart + nameLength
  let stop := extraStart + extraLength + commentLength
  if data.size < stop then .error .pastEnd
  let extra := data.extract extraStart (extraStart + extraLength)
  let plain : Record :=
    { name := nameOf flags (data.extract nameStart extraStart), encrypted := flags.testBit 0,
      method, checksum := checksum.toUInt32, packedSize, size, start }
  let (r, isSealed) ← readExtra extra extra.size 0 plain false
  if r.method = sealedMethod && !isSealed then .error .malformedEncryption
  .ok ({ r with start := r.start + origin }, stop)

/-- A number of records from an offset on, those read so far in reverse. -/
def readRecords (data : ByteArray) (origin : Nat) :
    Nat → Nat → List Record → Except StructureFault (List Record)
  | 0, _, seen => .ok seen.reverse
  | n + 1, p, seen =>
    match readRecord data origin p with
    | .error fault => .error fault
    | .ok (r, p) => readRecords data origin n p (r :: seen)

/-! ### Trailers -/

/-- Length of a trailer without its comment. -/
def trailerLength : Nat := 22

/-- The last offset from `p` down to `least` at which the four bytes of a signature stand. The
first argument is the number of offsets. -/
def lastSignature? (data : ByteArray) (signature : Nat) : Nat → Nat → Option Nat
  | 0, _ => none
  | n + 1, p =>
    if numberAt? data p 4 == some signature then some p
    else lastSignature? data signature n (p - 1)

/-- The first of a number of offsets from `p` up at which the four bytes of a signature stand. -/
def firstSignature? (data : ByteArray) (signature : Nat) : Nat → Nat → Option Nat
  | 0, _ => none
  | n + 1, p =>
    if numberAt? data p 4 == some signature then some p
    else firstSignature? data signature n (p + 1)

/-- Where the directory is. -/
structure Extent where
  /-- Where the archive starts. -/
  origin : Nat
  /-- Where the directory starts. -/
  start : Nat
  /-- Number of records. -/
  count : Nat
  deriving DecidableEq, Repr

/-- The offset of the trailer: that of the last signature which leaves room for a trailer and a
comment of at most 65535 bytes. -/
def trailerStart (data : ByteArray) : Except StructureFault Nat :=
  if data.size < trailerLength then .error .tooShort
  else
    let last := data.size - trailerLength
    match lastSignature? data 0x06054B50 (min last 65535 + 1) last with
    | some p => .ok p
    | none => .error .noTrailer

/-- The offset that the locator of a wide trailer names, with the part of the archive that the
locator is about. The locator stands right before the place where the trailer would stand if the
data ended with it. -/
def wideLocator? (data : ByteArray) (commentLength : Nat) : Option (Nat × Nat) := do
  let p := data.size - (20 + trailerLength + commentLength)
  guard (20 + trailerLength + commentLength ≤ data.size)
  guard ((← numberAt? data p 4) = 0x07064B50)
  let part ← numberAt? data (p + 4) 4
  let offset ← numberAt? data (p + 8) 8
  some (part, offset)

/-- Where the directory is according to the wide trailer, which stands at `nominal` or after it
and before the trailer at `trailer`. -/
def wideExtent (data : ByteArray) (nominal trailer : Nat) : Except StructureFault Extent := do
  if trailer < 60 then .error .noWideTrailer
  match firstSignature? data 0x06064B50 (trailer - 60 + 1 - nominal) nominal with
  | none => .error .noWideTrailer
  | some p =>
    let part ← field data (p + 16) 4
    let directoryPart ← field data (p + 20) 4
    let count ← field data (p + 32) 8
    let offset ← field data (p + 48) 8
    if part ≠ directoryPart then .error .severalParts
    let origin := p - nominal
    .ok { origin, start := offset + origin, count }

/-- Where the directory is. -/
def extent (data : ByteArray) : Except StructureFault Extent := do
  let trailer ← trailerStart data
  let part ← field data (trailer + 4) 2
  let directoryPart ← field data (trailer + 6) 2
  let count ← field data (trailer + 8) 2
  let total ← field data (trailer + 10) 2
  let size ← field data (trailer + 12) 4
  let offset ← field data (trailer + 16) 4
  let commentLength ← field data (trailer + 20) 2
  if data.size < trailer + trailerLength + commentLength then .error .pastEnd
  let isFull := [part, directoryPart, count, total].contains 0xFFFF ||
    [size, offset].contains wideMark
  if !isFull && part ≠ directoryPart then .error .severalParts
  match wideLocator? data commentLength with
  | some (widePart, nominal) =>
    if !isFull && part ≠ widePart then .error .severalParts
    wideExtent data nominal trailer
  | none =>
    if trailer < size + offset then .error .misplacedDirectory
    .ok { origin := trailer - size - offset, start := trailer - size, count }

/-- The records of an archive in the order of its directory. -/
def directory (data : ByteArray) : Except StructureFault (List Record) := do
  let e ← extent data
  readRecords data e.origin e.count e.start []

/-- Where the content of an entry starts. -/
def contentStart (data : ByteArray) (r : Record) : Except StructureFault Nat := do
  if (← field data r.start 4) ≠ 0x04034B50 then .error .noHeader
  let nameLength ← field data (r.start + 26) 2
  let extraLength ← field data (r.start + 28) 2
  .ok (r.start + 30 + nameLength + extraLength)

end Zip

end PackageScan
