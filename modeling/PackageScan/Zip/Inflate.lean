import PackageScan.Bytes

/-!
# Decoding compressed entries

A compressed entry is a chain of blocks of bits, the lowest bit of a byte first. `Inflate.decode`
gives the bytes that such a chain stands for, and why it stopped: the last block has ended, the
data has ended before it, the data is malformed, or a byte was due that there was no room for.

A block holds literal bytes and copies of earlier output. `Inflate.copy` copies byte by byte, so a
copy may overlap what it writes; before the first byte of output there are zero bytes.

A prefix code is given by the lengths of its code words (`PrefixCode.ofLengths?`). Words of one
length are consecutive numbers in the order of their symbols, and shorter words come first, so a
word is recognised by its length and its number alone.
-/

namespace PackageScan

namespace Inflate

/-- Why decoding has stopped. -/
inductive Stop where
  /-- The last block has ended. -/
  | complete
  /-- The data has ended. -/
  | truncated
  /-- The data is malformed. -/
  | malformed
  /-- A byte is due that there is no room for. -/
  | full
  deriving DecidableEq, Repr

/-! ### Bits

A reader gives what it has read and the bit offset after it. -/

/-- The bit at an offset, as a number. -/
def bit (data : ByteArray) (p : Nat) : Except Stop Nat :=
  match byteAt? data (p / 8) with
  | some b => .ok (b.toNat / Nat.pow 2 (p % 8) % 2)
  | none => .error .truncated

/-- The number of a run of bits, the lowest bit first. -/
def bits (data : ByteArray) : Nat → Nat → Except Stop (Nat × Nat)
  | 0, p => .ok (0, p)
  | n + 1, p => do
    let low ← bit data p
    let (high, p) ← bits data n (p + 1)
    .ok (low + 2 * high, p)

/-! ### Prefix codes -/

/-- A prefix code. -/
structure PrefixCode where
  /-- How many code words there are of the lengths from one up. -/
  counts : List Nat
  /-- The symbols in the order of their code words. -/
  symbols : Array Nat

namespace PrefixCode

/-- Longest code word. -/
def maxLength : Nat := 15

/-- The symbols that have code words of the given length. -/
def ofLength (lengths : List Nat) (n : Nat) : List Nat :=
  (lengths.mapIdx fun symbol length => (symbol, length)).filterMap fun (symbol, length) =>
    if length = n then some symbol else none

/-- How much of all words the words of a code take up, in units of the longest word; the counts
are those of the lengths from `maxLength + 1 - n` up. -/
def share : Nat → List Nat → Nat
  | n + 1, count :: counts => count * Nat.pow 2 n + share n counts
  | _, _ => 0

/-- The code with the given lengths of words, in which no word is the start of another. Unless it
has at most one word, the words have to leave nothing over. A symbol of length zero has none. -/
def ofLengths? (lengths : List Nat) : Option PrefixCode :=
  let groups := (List.range maxLength).map fun n => ofLength lengths (n + 1)
  let counts := groups.map List.length
  if counts.foldl (· + ·) 0 ≤ 1 || share maxLength counts = Nat.pow 2 maxLength then
    some { counts, symbols := groups.flatten.toArray }
  else none

/-- Reads the rest of a code word, the start of which has the number `word`. The words of the
length reached so far begin at the number `first`, and `before` words are shorter. -/
def readFrom (data : ByteArray) (symbols : Array Nat) :
    List Nat → (word first before p : Nat) → Except Stop (Nat × Nat)
  | [], _, _, _, _ => .error .malformed
  | count :: counts, word, first, before, p => do
    let low ← bit data p
    let word := 2 * word + low
    let first := 2 * first
    if first ≤ word && word < first + count then
      match symbols[before + (word - first)]? with
      | some symbol => .ok (symbol, p + 1)
      | none => .error .malformed
    else readFrom data symbols counts word (first + count) (before + count) (p + 1)

/-- Reads a code word and gives its symbol. -/
def read (code : PrefixCode) (data : ByteArray) (p : Nat) : Except Stop (Nat × Nat) :=
  readFrom data code.symbols code.counts 0 0 0 p

end PrefixCode

/-! ### Copies -/

/-- The shortest copy of each symbol and the number of bits that lengthen it. -/
def lengthTable : Array (Nat × Nat) :=
  #[(3, 0), (4, 0), (5, 0), (6, 0), (7, 0), (8, 0), (9, 0), (10, 0), (11, 1), (13, 1), (15, 1),
    (17, 1), (19, 2), (23, 2), (27, 2), (31, 2), (35, 3), (43, 3), (51, 3), (59, 3), (67, 4),
    (83, 4), (99, 4), (115, 4), (131, 5), (163, 5), (195, 5), (227, 5), (258, 0)]

/-- The shortest distance of each symbol and the number of bits that lengthen it. -/
def distanceTable : Array (Nat × Nat) :=
  #[(1, 0), (2, 0), (3, 0), (4, 0), (5, 1), (7, 1), (9, 2), (13, 2), (17, 3), (25, 3), (33, 4),
    (49, 4), (65, 5), (97, 5), (129, 6), (193, 6), (257, 7), (385, 7), (513, 8), (769, 8),
    (1025, 9), (1537, 9), (2049, 10), (3073, 10), (4097, 11), (6145, 11), (8193, 12),
    (12289, 12), (16385, 13), (24577, 13)]

/-- A number of a table, lengthened by the bits that follow. -/
def lengthened (data : ByteArray) (table : Array (Nat × Nat)) (symbol p : Nat) :
    Except Stop (Nat × Nat) :=
  match table[symbol]? with
  | some (least, extra) => do
    let (more, p) ← bits data extra p
    .ok (least + more, p)
  | none => .error .malformed

/-- The byte a distance before the end; before the start there are zero bytes. -/
def byteBack (output : ByteArray) (distance : Nat) : UInt8 :=
  if distance ≤ output.size then (byteAt? output (output.size - distance)).getD 0 else 0

/-- Appends a number of bytes, each the one a distance before it. -/
def copy (distance : Nat) : Nat → ByteArray → ByteArray
  | 0, output => output
  | n + 1, output => copy distance n (output.push (byteBack output distance))

/-! ### Blocks -/

/-- The output so far, and the bit offset reached or why decoding stops. -/
abbrev Progress := ByteArray × Except Stop Nat

/-- Reads the length and the distance of a copy, the symbol of its length given. -/
def readCopy (distances : PrefixCode) (data : ByteArray) (symbol p : Nat) :
    Except Stop ((Nat × Nat) × Nat) := do
  let (length, p) ← lengthened data lengthTable (symbol - 257) p
  let (symbol, p) ← distances.read data p
  let (distance, p) ← lengthened data distanceTable symbol p
  .ok ((length, distance), p)

/-- Decodes the symbols of a block up to its end. A symbol takes at least one bit, so the number
of bits bounds the number of symbols, which is the first argument. -/
def symbols (literals distances : PrefixCode) (data : ByteArray) (room : Nat) :
    Nat → Nat → ByteArray → Progress
  | 0, _, output => (output, .error .truncated)
  | fuel + 1, p, output =>
    match literals.read data p with
    | .error stop => (output, .error stop)
    | .ok (symbol, p) =>
      if symbol < 256 then
        if output.size < room then
          symbols literals distances data room fuel p (output.push symbol.toUInt8)
        else (output, .error .full)
      else if symbol = 256 then (output, .ok p)
      else
        match readCopy distances data symbol p with
        | .error stop => (output, .error stop)
        | .ok ((length, distance), p) =>
          if output.size + length ≤ room then
            symbols literals distances data room fuel p (copy distance length output)
          else (copy distance (room - output.size) output, .error .full)

/-- Decodes a block whose bytes stand as they are. -/
def stored (data : ByteArray) (room p : Nat) (output : ByteArray) : Progress :=
  let start := (p + 7) / 8
  match numberAt? data start 2, numberAt? data (start + 2) 2 with
  | some length, some complement =>
    let start := start + 4
    let here := data.size - start
    let fit := room - output.size
    let taken := min length (min here fit)
    let output := output ++ data.extract start (start + taken)
    if length + complement ≠ 0xFFFF then (output, .error .malformed)
    else if taken = length then (output, .ok (8 * (start + length)))
    else if fit ≤ here then (output, .error .full)
    else (output, .error .truncated)
  | _, _ => (output, .error .truncated)

/-- The code of literals and lengths in a block that brings no codes. -/
def fixedLiterals : PrefixCode :=
  (PrefixCode.ofLengths? (List.replicate 144 8 ++ List.replicate 112 9 ++ List.replicate 24 7 ++
    List.replicate 8 8)).getD ⟨[], #[]⟩

/-- The code of distances in a block that brings no codes. -/
def fixedDistances : PrefixCode :=
  (PrefixCode.ofLengths? (List.replicate 32 5)).getD ⟨[], #[]⟩

/-- The order in which the lengths of the words for lengths are listed. -/
def lengthOrder : List Nat :=
  [16, 17, 18, 0, 8, 7, 9, 6, 10, 5, 11, 4, 12, 3, 13, 2, 14, 1, 15]

/-- Reads a number of fields of three bits. -/
def readTriples (data : ByteArray) : Nat → Nat → Except Stop (List Nat × Nat)
  | 0, p => .ok ([], p)
  | n + 1, p => do
    let (length, p) ← bits data 3 p
    let (rest, p) ← readTriples data n p
    .ok (length :: rest, p)

/-- Reads word lengths up to a total number, those read so far in reverse. Each symbol brings at
least one length; the first argument bounds the number of symbols. -/
def readLengths (code : PrefixCode) (data : ByteArray) (total : Nat) :
    Nat → List Nat → Nat → Except Stop (List Nat × Nat)
  | 0, seen, p =>
    if seen.length = total then .ok (seen.reverse, p) else .error .malformed
  | fuel + 1, seen, p =>
    if seen.length = total then .ok (seen.reverse, p)
    else if total < seen.length then .error .malformed
    else do
      let (symbol, p) ← code.read data p
      if symbol < 16 then readLengths code data total fuel (symbol :: seen) p
      else
        match symbol, seen with
        | 16, [] => .error .malformed
        | 16, last :: _ => do
          let (more, p) ← bits data 2 p
          readLengths code data total fuel (List.replicate (3 + more) last ++ seen) p
        | 17, _ => do
          let (more, p) ← bits data 3 p
          readLengths code data total fuel (List.replicate (3 + more) 0 ++ seen) p
        | _, _ => do
          let (more, p) ← bits data 7 p
          readLengths code data total fuel (List.replicate (11 + more) 0 ++ seen) p

/-- The code with the given lengths, or a fault. -/
def codeOf (lengths : List Nat) : Except Stop PrefixCode :=
  match PrefixCode.ofLengths? lengths with
  | some code => .ok code
  | none => .error .malformed

/-- Reads the codes that a block brings: that of literals and lengths, and that of distances. -/
def readCodes (data : ByteArray) (p : Nat) : Except Stop ((PrefixCode × PrefixCode) × Nat) := do
  let (literals, p) ← bits data 5 p
  let (distances, p) ← bits data 5 p
  let (lengths, p) ← bits data 4 p
  let literals := literals + 257
  let distances := distances + 1
  if literals > 286 || distances > 30 then .error .malformed
  let (listed, p) ← readTriples data (lengths + 4) p
  let placed := lengthOrder.zip listed
  let code ← codeOf ((List.range 19).map fun symbol => (placed.lookup symbol).getD 0)
  let total := literals + distances
  let (all, p) ← readLengths code data total total [] p
  let literalCode ← codeOf (all.take literals)
  let distanceCode ← codeOf (all.drop literals)
  .ok ((literalCode, distanceCode), p)

/-- Decodes one block after its mark for the last one. -/
def block (data : ByteArray) (room p : Nat) (output : ByteArray) : Progress :=
  let count := 8 * data.size + 1
  match bits data 2 p with
  | .error stop => (output, .error stop)
  | .ok (0, p) => stored data room p output
  | .ok (1, p) => symbols fixedLiterals fixedDistances data room count p output
  | .ok (2, p) =>
    match readCodes data p with
    | .error stop => (output, .error stop)
    | .ok ((literals, distances), p) => symbols literals distances data room count p output
  | .ok (_, _) => (output, .error .malformed)

/-- Decodes blocks up to the last one; each takes at least one bit. -/
def blocks (data : ByteArray) (room : Nat) : Nat → Nat → ByteArray → ByteArray × Stop
  | 0, _, output => (output, .truncated)
  | fuel + 1, p, output =>
    match bit data p with
    | .error stop => (output, stop)
    | .ok last =>
      match block data room (p + 1) output with
      | (output, .error stop) => (output, stop)
      | (output, .ok p) => if last = 1 then (output, .complete) else blocks data room fuel p output

/-- The bytes that compressed data stands for, at most `room` of them, and why no more follow. -/
def decode (data : ByteArray) (room : Nat) : ByteArray × Stop :=
  blocks data room (8 * data.size + 1) 0 .empty

end Inflate

end PackageScan
