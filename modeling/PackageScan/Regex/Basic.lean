import PackageScan.Bytes
import PackageScan.Regex.ByteSet

/-!
# Byte patterns and their matches

A `Regex` describes runs of bytes. `Regex.Matches data r p q` says that the bytes of `data` from
offset `p` up to offset `q` are such a run, where assertions see the whole of `data`.

Matching runs backwards over sets of offsets: `r.starts data goal` is the set of offsets from
which a match of `r` leads into `goal`. A pattern that follows another one is asked first, a
repetition is a fixed point, and each step passes over the data once; so the offsets at which a
match begins are found all together, without backtracking. Of the matches that begin at one
offset, `r.preferredStop?` gives the end of the one that is preferred: earlier alternatives
before later ones, and one more repetition before none unless the repetition is lazy.
-/

namespace PackageScan

/-- A condition on a place in the data. -/
inductive Assertion where
  /-- The start of the data. -/
  | start
  /-- The end of the data. -/
  | stop
  /-- The start of the data or right after a newline. -/
  | lineStart
  /-- The end of the data or right before a newline. -/
  | lineStop
  /-- Like `lineStart`, with returns and pairs of return and newline as line ends. -/
  | lineStartReturn
  /-- Like `lineStop`, with returns and pairs of return and newline as line ends. -/
  | lineStopReturn
  /-- A word byte on exactly one side. -/
  | wordBoundary
  /-- A word byte on both sides or on neither. -/
  | noWordBoundary
  /-- A word byte after, none before. -/
  | wordStart
  /-- A word byte before, none after. -/
  | wordStop
  /-- No word byte before. -/
  | wordStartHalf
  /-- No word byte after. -/
  | wordStopHalf
  deriving DecidableEq, Repr

/-- A pattern of bytes. -/
inductive Regex where
  /-- The empty run. -/
  | empty
  /-- One byte of a set. -/
  | set (bytes : ByteSet)
  /-- The empty run at a place with a property. -/
  | look (assertion : Assertion)
  /-- A capturing group, which matches what it holds. -/
  | group (inner : Regex)
  /-- One run after another. -/
  | seq (left right : Regex)
  /-- Either of two; the left one is preferred. -/
  | alt (left right : Regex)
  /-- At least `least` and at most `most` runs one after another. -/
  | repeated (inner : Regex) (least : Nat) (most : Option Nat) (greedy : Bool)
  deriving Inhabited

namespace Assertion

/-- Is there a byte of the set at the offset? -/
def isIn (data : ByteArray) (s : ByteSet) (p : Nat) : Bool := (byteAt? data p).any s.contains

/-- Is there a byte of the set right before the offset? -/
def isInBefore (data : ByteArray) (s : ByteSet) : Nat → Bool
  | 0 => false
  | p + 1 => isIn data s p

/-- Does the condition hold at the offset? -/
def holds (data : ByteArray) (p : Nat) : Assertion → Bool
  | start => p == 0
  | stop => p == data.size
  | lineStart => p == 0 || isInBefore data (.single 10) p
  | lineStop => p == data.size || isIn data (.single 10) p
  | lineStartReturn =>
    p == 0 || isInBefore data (.single 10) p ||
      (isInBefore data (.single 13) p && !isIn data (.single 10) p)
  | lineStopReturn =>
    p == data.size || isIn data (.single 13) p ||
      (isIn data (.single 10) p && !isInBefore data (.single 13) p)
  | wordBoundary => isInBefore data .word p != isIn data .word p
  | noWordBoundary => isInBefore data .word p == isIn data .word p
  | wordStart => !isInBefore data .word p && isIn data .word p
  | wordStop => isInBefore data .word p && !isIn data .word p
  | wordStartHalf => !isInBefore data .word p
  | wordStopHalf => !isIn data .word p

end Assertion

/-! ### Sets of offsets -/

/-- A set of offsets, as a table that starts at offset zero. -/
structure Offsets where
  /-- For each offset, whether it belongs to the set. -/
  table : Array Bool
  deriving DecidableEq, Inhabited

namespace Offsets

/-- Does the offset belong to the set? -/
def contains (s : Offsets) (p : Nat) : Bool := s.table.getD p false

/-- The set of the offsets below `n` with a property. -/
def tabulate (n : Nat) (f : Nat → Bool) : Offsets := ⟨Array.ofFn fun i : Fin n => f i.val⟩

/-- The offsets below `n` that belong to one of two sets. -/
def union (n : Nat) (s t : Offsets) : Offsets :=
  tabulate n fun p => s.contains p || t.contains p

/-- The least member at or after `p`, looked for at `fuel` offsets. -/
def nextFrom? (s : Offsets) : Nat → Nat → Option Nat
  | 0, _ => none
  | fuel + 1, p => if s.contains p then some p else nextFrom? s fuel (p + 1)

/-- The least member at or after `p`. -/
def next? (s : Offsets) (p : Nat) : Option Nat := s.nextFrom? (s.table.size - p) p

end Offsets

namespace Regex

/-! ### Meaning -/

/-- `n` steps of a relation between offsets. -/
def Steps (step : Nat → Nat → Prop) : Nat → Nat → Nat → Prop
  | 0, p, q => p = q
  | n + 1, p, q => ∃ m, step p m ∧ Steps step n m q

/-- The bytes of the data from `p` up to `q` are a run that the pattern describes. -/
def Matches (data : ByteArray) : Regex → Nat → Nat → Prop
  | empty, p, q => p = q ∧ p ≤ data.size
  | set bytes, p, q => q = p + 1 ∧ ∃ b, byteAt? data p = some b ∧ bytes.contains b
  | look assertion, p, q => p = q ∧ p ≤ data.size ∧ assertion.holds data p
  | group inner, p, q => inner.Matches data p q
  | seq left right, p, q => ∃ m, left.Matches data p m ∧ right.Matches data m q
  | alt left right, p, q => left.Matches data p q ∨ right.Matches data p q
  | repeated inner least most _, p, q =>
    p ≤ data.size ∧
      ∃ n, least ≤ n ∧ (∀ m ∈ most, n ≤ m) ∧ Steps (inner.Matches data) n p q

/-- A match of the pattern begins at `p`. -/
def BeginsAt (data : ByteArray) (r : Regex) (p : Nat) : Prop := ∃ q, r.Matches data p q

/-! ### Where matches begin -/

/-- Takes `n` steps back, or fewer once a step changes nothing. -/
def stepsBack (step : Offsets → Offsets) : Nat → Offsets → Offsets
  | 0, goal => goal
  | n + 1, goal =>
    let earlier := step goal
    if earlier = goal then goal else stepsBack step n earlier

/-- Takes up to `n` steps back and collects all places on the way into `goal`; stops early once
a step adds nothing. -/
def stepsBackUpTo (size : Nat) (step : Offsets → Offsets) (goal : Offsets) :
    Nat → Offsets → Offsets
  | 0, reached => reached
  | n + 1, reached =>
    let more := goal.union size (step reached)
    if more = reached then reached else stepsBackUpTo size step goal n more

/-- The offsets from which a match of the pattern leads to an offset in `goal`. -/
def starts (data : ByteArray) : Regex → Offsets → Offsets
  | empty, goal => goal
  | set bytes, goal =>
    .tabulate (data.size + 1) fun p =>
      match byteAt? data p with
      | some b => bytes.contains b && goal.contains (p + 1)
      | none => false
  | look assertion, goal =>
    .tabulate (data.size + 1) fun p => goal.contains p && assertion.holds data p
  | group inner, goal => inner.starts data goal
  | seq left right, goal => left.starts data (right.starts data goal)
  | alt left right, goal =>
    .union (data.size + 1) (left.starts data goal) (right.starts data goal)
  | repeated inner least most _, goal =>
    let step := inner.starts data
    let optional := match most with
      | none => data.size + 1
      | some most => most - least
    if (most.any fun most => most < least) then .tabulate (data.size + 1) fun _ => false
    else stepsBack step least (stepsBackUpTo (data.size + 1) step goal optional goal)

/-- The offsets at which a match begins. -/
def beginnings (data : ByteArray) (r : Regex) : Offsets :=
  r.starts data (.tabulate (data.size + 1) fun _ => true)

/-! ### The preferred match -/

/-- Exactly `n` runs, then the rest. -/
def exactly (one : (Nat → Option Nat) → Nat → Option Nat) (rest : Nat → Option Nat) :
    Nat → Nat → Option Nat
  | 0, p => rest p
  | n + 1, p => one (exactly one rest n) p

/-- Up to `n` runs, then the rest. A run that takes no byte is not repeated. -/
def upTo (one : (Nat → Option Nat) → Nat → Option Nat) (rest : Nat → Option Nat)
    (greedy : Bool) : Nat → Nat → Option Nat
  | 0, p => rest p
  | n + 1, p =>
    let more := fun _ : Unit => one (fun q => if q = p then none else upTo one rest greedy n q) p
    if greedy then (more ()).orElse fun _ => rest p else (rest p).orElse more

/-- Follows the choices of the pattern from `p` in the order of preference until `rest` accepts
an offset, and gives what it says. -/
def follow (data : ByteArray) : Regex → (Nat → Option Nat) → Nat → Option Nat
  | empty, rest, p => rest p
  | set bytes, rest, p =>
    match byteAt? data p with
    | some b => if bytes.contains b then rest (p + 1) else none
    | none => none
  | look assertion, rest, p => if assertion.holds data p then rest p else none
  | group inner, rest, p => inner.follow data rest p
  | seq left right, rest, p => left.follow data (right.follow data rest) p
  | alt left right, rest, p =>
    (left.follow data rest p).orElse fun _ => right.follow data rest p
  | repeated inner least most greedy, rest, p =>
    let optional := match most with
      | none => data.size + 1
      | some most => most - least
    exactly (inner.follow data) (upTo (inner.follow data) rest greedy optional) least p

/-- The end of the preferred match that begins at `p`. -/
def preferredStop? (data : ByteArray) (r : Regex) (p : Nat) : Option Nat :=
  r.follow data some p

end Regex

/-! ### Searching -/

/-- What a search in fixed data can be asked. -/
structure Searcher where
  /-- The first offset at or after the given one at which a match begins. -/
  next? : Nat → Option Nat
  /-- The end of the preferred match that begins at the given offset. -/
  stop : Nat → Nat

/-- A pattern's searcher in the given data. -/
def Regex.searcher (r : Regex) (data : ByteArray) : Searcher :=
  let beginnings := r.beginnings data
  { next? := beginnings.next?
    stop := fun p => (r.preferredStop? data p).getD p }

end PackageScan
