/-!
# Sets of bytes

A set is given by its membership test. The named sets are those of ASCII; no byte above 127 is a
letter, a digit or white space.
-/

namespace PackageScan

/-- A set of bytes. -/
structure ByteSet where
  /-- Does the byte belong to the set? -/
  contains : UInt8 → Bool
  deriving Inhabited

namespace ByteSet

/-- The set without bytes. -/
def none : ByteSet := ⟨fun _ => false⟩

/-- All bytes. -/
def all : ByteSet := ⟨fun _ => true⟩

/-- One byte. -/
def single (b : UInt8) : ByteSet := ⟨fun x => x == b⟩

/-- The bytes between two bytes, both included. -/
def range (low high : UInt8) : ByteSet := ⟨fun x => low ≤ x && x ≤ high⟩

/-- The bytes that are in one of two sets. -/
def union (s t : ByteSet) : ByteSet := ⟨fun x => s.contains x || t.contains x⟩

/-- The bytes that are in both of two sets. -/
def inter (s t : ByteSet) : ByteSet := ⟨fun x => s.contains x && t.contains x⟩

/-- The bytes that are in the first of two sets only. -/
def diff (s t : ByteSet) : ByteSet := ⟨fun x => s.contains x && !t.contains x⟩

/-- The bytes that are in exactly one of two sets. -/
def symmDiff (s t : ByteSet) : ByteSet := ⟨fun x => s.contains x != t.contains x⟩

/-- The bytes outside a set. -/
def compl (s : ByteSet) : ByteSet := ⟨fun x => !s.contains x⟩

/-- An ASCII letter in the other case, any other byte as it is. -/
def swapCase (b : UInt8) : UInt8 :=
  if 65 ≤ b && b ≤ 90 then b + 32 else if 97 ≤ b && b ≤ 122 then b - 32 else b

/-- The set together with the ASCII letters it holds in the other case. -/
def foldCase (s : ByteSet) : ByteSet :=
  ⟨fun x => s.contains x || s.contains (swapCase x)⟩

/-- The bytes of the set in increasing order. -/
def toList (s : ByteSet) : List UInt8 :=
  ((List.range 256).map UInt8.ofNat).filter s.contains

/-- Number of runs of neighbouring bytes that make up the set. -/
def runs (s : ByteSet) : Nat :=
  (List.range 256).countP fun i =>
    s.contains (UInt8.ofNat i) && (i == 0 || !s.contains (UInt8.ofNat (i - 1)))

/-! ### Named sets -/

/-- Decimal digits. -/
def digit : ByteSet := range 48 57

/-- Small ASCII letters. -/
def lower : ByteSet := range 97 122

/-- Capital ASCII letters. -/
def upper : ByteSet := range 65 90

/-- ASCII letters. -/
def alpha : ByteSet := lower.union upper

/-- ASCII letters and digits. -/
def alnum : ByteSet := alpha.union digit

/-- ASCII letters, digits and the underscore. -/
def word : ByteSet := alnum.union (single 95)

/-- ASCII white space: tab, newline, vertical tab, form feed, return and space. -/
def space : ByteSet := (range 9 13).union (single 32)

/-- The set with the given name between colons. -/
def named? : String → Option ByteSet
  | "alnum" => some alnum
  | "alpha" => some alpha
  | "ascii" => some (range 0 127)
  | "blank" => some ((single 9).union (single 32))
  | "cntrl" => some ((range 0 31).union (single 127))
  | "digit" => some digit
  | "graph" => some (range 33 126)
  | "lower" => some lower
  | "print" => some (range 32 126)
  | "punct" =>
    some ((range 33 47).union ((range 58 64).union ((range 91 96).union (range 123 126))))
  | "space" => some space
  | "upper" => some upper
  | "word" => some word
  | "xdigit" => some (digit.union ((range 65 70).union (range 97 102)))
  | _ => Option.none

end ByteSet

end PackageScan
