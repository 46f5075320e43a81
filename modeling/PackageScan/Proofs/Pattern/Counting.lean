import Mathlib.Data.Set.Card
import PackageScan.Pattern.Basic
import PackageScan.Proofs.Regex.Beginnings

/-!
# Counting occurrences

Occurrences are counted by one search after another, each from the offset right after the beginning
that was found last. With a searcher that finds the first offset there is, the loop visits every
offset at which there is something to find, once each and in order (`Pattern.countFrom_eq`). So it
comes to the number of those that pass the test, overlapping occurrences included.

The loop is also stated as it looks things up (`Pattern.countFrom?`): it fails if it has not ended
after so many rounds or if a test looks up a byte that is not there. Where occurrences begin within
the data it does neither (`Pattern.countWith?_eq`).

Nothing of this hangs on how occurrences are searched for. `Pattern.countBy` counts with any
searchers, and for those that find the first occurrence there is, it adds up the numbers of
occurrences of the forms (`Pattern.countBy_eq_sum`).
-/

namespace PackageScan

namespace Pattern

variable {searcher : Searcher} {P : Nat → Prop} {accept : Nat → Bool} {size : Nat}

/-- A search that fails leaves nothing behind. -/
private theorem not_of_next?_eq_none (h : searcher.Finds P) {p : Nat}
    (hnone : searcher.next? p = none)
    {q : Nat} (hpq : p ≤ q) : ¬P q := by
  -- the first offset at or after `p` with the property would have been found
  induction q using Nat.strong_induction_on with
  | _ q ih =>
    intro hq
    have hfound : searcher.next? p = some q :=
      (h p q).mpr ⟨hpq, hq, fun t hpt htq => ih t htq hpt⟩
    rw [hnone] at hfound
    exact nomatch hfound

/-- What is there to be counted from an offset on. -/
def counted (P : Nat → Prop) (accept : Nat → Bool) (position : Nat) : Set Nat :=
  {q | position ≤ q ∧ P q ∧ accept q = true}

private theorem finite_counted (hP : ∀ q, P q → q ≤ size) (position : Nat) :
    (counted P accept position).Finite :=
  (Set.finite_le_nat size).subset fun q hq => hP q hq.2.1

private theorem counted_eq_empty_of_lt (hP : ∀ q, P q → q ≤ size) {position : Nat}
    (hlt : size < position) : counted P accept position = ∅ := by
  refine Set.eq_empty_of_forall_notMem fun q hq => ?_
  have hsize : q ≤ size := hP q hq.2.1
  have hposition : position ≤ q := hq.1
  omega

private theorem counted_eq_empty_of_next? (h : searcher.Finds P) {position : Nat}
    (hnone : searcher.next? position = none) : counted P accept position = ∅ :=
  Set.eq_empty_of_forall_notMem fun _ hq => not_of_next?_eq_none h hnone hq.1 hq.2.1

/-- One occurrence is counted if it passes the test, and the search goes on right after it. -/
private theorem ncard_counted_of_next? (h : searcher.Finds P) (hP : ∀ q, P q → q ≤ size)
    {position start : Nat} (hnext : searcher.next? position = some start) :
    (counted P accept position).ncard =
      (counted P accept (start + 1)).ncard + if accept start then 1 else 0 := by
  obtain ⟨hle, hstart, hfirst⟩ := (h position start).mp hnext
  have hlater (q : Nat) (hq : position ≤ q) (hPq : P q) : q = start ∨ start + 1 ≤ q := by
    by_contra hnot
    exact hfirst q hq (by omega) hPq
  split_ifs with haccept
  · have hinsert : counted P accept position = insert start (counted P accept (start + 1)) := by
      ext q
      constructor
      · rintro ⟨hq, hPq, haq⟩
        exact (hlater q hq hPq).imp id fun hgt => ⟨hgt, hPq, haq⟩
      · rintro (rfl | ⟨hgt, hPq, haq⟩)
        · exact ⟨hle, hstart, haccept⟩
        · exact ⟨by omega, hPq, haq⟩
    have hnotMem : start ∉ counted P accept (start + 1) := fun hmem =>
      Nat.not_succ_le_self start hmem.1
    rw [hinsert, Set.ncard_insert_of_notMem hnotMem (finite_counted hP _)]
  · have hsame : counted P accept position = counted P accept (start + 1) := by
      ext q
      constructor
      · rintro ⟨hq, hPq, haq⟩
        refine (hlater q hq hPq).elim (fun heq => ?_) fun hgt => ⟨hgt, hPq, haq⟩
        exact absurd haq (heq ▸ haccept)
      · rintro ⟨hgt, hPq, haq⟩
        exact ⟨by omega, hPq, haq⟩
    rw [hsame]
    rfl

/-- **A run of the loop.** The loop counts each offset that passes the test once. -/
theorem countFrom_eq (h : searcher.Finds P) (hP : ∀ q, P q → q ≤ size) {fuel position : Nat}
    (hfuel : size < position + fuel) (before : Nat) :
    countFrom searcher accept fuel position before =
      before + (counted P accept position).ncard := by
  induction fuel generalizing position before with
  | zero =>
    rw [counted_eq_empty_of_lt hP (show size < position from hfuel), Set.ncard_empty]
    rfl
  | succ fuel ih =>
    rw [countFrom]
    cases hnext : searcher.next? position with
    | none =>
      rw [counted_eq_empty_of_next? h hnext, Set.ncard_empty]
      rfl
    | some start =>
      have hle : position ≤ start := ((h position start).mp hnext).1
      dsimp only
      rw [ih (by omega), ncard_counted_of_next? h hP hnext]
      split_ifs <;> omega

/-! ### Lookups that may fail -/

/-- Stands a letter or digit neither right after an occurrence nor one character before it? A byte
after it need not be there; a byte before it has to be, unless the data begins in between. -/
def isWordBounded? (data : ByteArray) (wide : Bool) (start stop : Nat) : Option Bool :=
  let step := if wide then 2 else 1
  let before? : Option Bool :=
    if step ≤ start then (byteAt? data (start - step)).map ByteSet.alnum.contains else some false
  before?.map fun before => !before && !isWordAt data stop

/-- Counts the occurrences in data of the given size from an offset on that pass a test, on top of
those counted so far. It fails if a test does or if the rounds are used up. -/
def countFrom? (searcher : Searcher) (test? : Nat → Option Bool) (size : Nat) :
    Nat → Nat → Nat → Option Nat
  | 0, _, _ => none
  | rounds + 1, position, counted =>
    if size < position then some counted
    else
      match searcher.next? position with
      | none => some counted
      | some start => do
        let passes ← test? start
        countFrom? searcher test? size rounds (start + 1)
          (if passes then counted + 1 else counted)

/-- Counts the occurrences that a searcher finds in the data, with one round more than there are
offsets. -/
def countWith? (searcher : Searcher) (data : ByteArray) (fullword wide : Bool) : Option Nat :=
  let test? (start : Nat) : Option Bool :=
    if fullword then isWordBounded? data wide start (searcher.stop start) else some true
  countFrom? searcher test? data.size (data.size + 2) 0 0

/-- Counts the occurrences of a form, with one round more than there are offsets. -/
def countVariant? (fullword : Bool) (data : ByteArray) (v : Variant) : Option Nat :=
  let searcher := v.regex.searcher data
  let test? (start : Nat) : Option Bool :=
    if fullword then isWordBounded? data v.wide start (searcher.stop start) else some true
  countFrom? searcher test? data.size (data.size + 2) 0 0

/-- Number of occurrences of all forms, if no lookup fails. -/
def count? (p : Pattern) (data : ByteArray) : Option Nat :=
  p.variants.foldlM (fun n v => (countVariant? p.fullword data v).map (n + ·)) 0

/-- The byte before an occurrence is there if the occurrence begins within the data. -/
private theorem isWordBounded?_eq {data : ByteArray} {start : Nat} (h : start ≤ data.size)
    (wide : Bool)
    (stop : Nat) :
    isWordBounded? data wide start stop = some (isWordBounded data wide start stop) := by
  have hstep : 0 < if wide = true then 2 else 1 := by split_ifs <;> decide
  rw [isWordBounded?, isWordBounded]
  generalize (if wide = true then 2 else 1) = step at hstep ⊢
  by_cases hle : step ≤ start
  · have hlt : start - step < data.size := by omega
    have hbyte : byteAt? data (start - step) = some data[start - step] := dif_pos hlt
    have hword : isWordAt data (start - step) = ByteSet.alnum.contains data[start - step] := by
      rw [isWordAt, hbyte]
      rfl
    rw [if_pos hle, hbyte, hword]
    simp [hle]
  · simp [hle]

/-- **The loop ends without a failed lookup.** -/
theorem countFrom?_eq (h : searcher.Finds P) (hP : ∀ q, P q → q ≤ size)
    {test? : Nat → Option Bool} (htest : ∀ q, P q → test? q = some (accept q))
    {rounds position : Nat} (hposition : position ≤ size + 1)
    (hrounds : size + 1 < position + rounds) (before : Nat) :
    countFrom? searcher test? size rounds position before =
      some (before + (counted P accept position).ncard) := by
  induction rounds generalizing position before with
  | zero => omega
  | succ rounds ih =>
    rw [countFrom?]
    split_ifs with hbeyond
    · rw [counted_eq_empty_of_lt hP hbeyond, Set.ncard_empty]
      rfl
    · cases hnext : searcher.next? position with
      | none =>
        rw [counted_eq_empty_of_next? h hnext, Set.ncard_empty]
        rfl
      | some start =>
        obtain ⟨hle, hstart, -⟩ := (h position start).mp hnext
        have hsize : start ≤ size := hP start hstart
        dsimp only
        rw [htest start hstart, ncard_counted_of_next? h hP hnext]
        dsimp only [Option.bind_eq_bind, Option.bind_some]
        rw [ih (by omega) (by omega)]
        split_ifs <;> exact congrArg some (by omega)

/-- **The naive count.** In the data, what a searcher finds is counted once at each offset; under
`fullword` only if no letter or digit stands next to it. -/
theorem countWith_eq {data : ByteArray} (h : searcher.Finds P) (hP : ∀ q, P q → q ≤ data.size)
    (fullword wide : Bool) :
    countWith searcher data fullword wide =
      {q | P q ∧ (fullword = true →
        isWordBounded data wide q (searcher.stop q) = true)}.ncard := by
  rw [countWith, countFrom_eq h hP (by omega), Nat.zero_add]
  congr 1
  ext q
  cases fullword <;> simp [counted]

/-- The occurrences of a form in the data. -/
theorem countVariant_eq (fullword : Bool) (data : ByteArray) (v : Variant) :
    countVariant fullword data v =
      {q | v.regex.BeginsAt data q ∧ (fullword = true → isWordBounded data v.wide q
        ((v.regex.preferredStop? data q).getD q) = true)}.ncard :=
  countWith_eq (v.regex.finds_searcher data) (fun _ hq => hq.le) fullword v.wide

/-- Occurrences that begin within the data are counted without a failed lookup. -/
theorem countWith?_eq {data : ByteArray} (h : searcher.Finds P) (hP : ∀ q, P q → q ≤ data.size)
    (fullword wide : Bool) :
    countWith? searcher data fullword wide = some (countWith searcher data fullword wide) := by
  have htest (q : Nat) (hq : P q) :
      (if fullword then isWordBounded? data wide q (searcher.stop q) else some true) =
        some (!fullword || isWordBounded data wide q (searcher.stop q)) := by
    cases fullword with
    | false => rfl
    | true => exact isWordBounded?_eq (hP q hq) _ _
  rw [countWith?, countWith, countFrom_eq h hP (by omega)]
  exact countFrom?_eq h hP htest (Nat.zero_le _) (by omega) 0

/-- The occurrences of a form are counted without a failed lookup. -/
private theorem countVariant?_eq (fullword : Bool) (data : ByteArray) (v : Variant) :
    countVariant? fullword data v = some (countVariant fullword data v) :=
  countWith?_eq (v.regex.finds_searcher data) (fun _ hq => hq.le) fullword v.wide

/-- The occurrences of all forms are counted without a failed lookup. -/
theorem count?_eq (p : Pattern) (data : ByteArray) : p.count? data = some (p.count data) := by
  have hfold (vs : List Variant) (start : Nat) :
      vs.foldlM (fun n v => (countVariant? p.fullword data v).map (n + ·)) start =
        some ((vs.map (countVariant p.fullword data)).foldl (· + ·) start) := by
    induction vs generalizing start with
    | nil => rfl
    | cons v vs ih =>
      rw [List.foldlM_cons, countVariant?_eq, Option.map_some, Option.bind_eq_bind,
        Option.bind_some, ih]
      rfl
  exact hfold p.variants 0

/-! ### Any search -/

/-- Number of occurrences of all forms, as the given searchers find them. -/
def countBy (searcher : Variant → Searcher) (p : Pattern) (data : ByteArray) : Nat :=
  (p.variants.map fun v => countWith (searcher v) data p.fullword v.wide).foldl (· + ·) 0

/-- The offsets in the data, its end included, at which something begins; under `fullword` only
those where no letter or digit stands next to what is found there. -/
def occurrences (data : ByteArray) (fullword wide : Bool) (P : Nat → Prop) (stop : Nat → Nat) :
    Set Nat :=
  {q | q ≤ data.size ∧ P q ∧ (fullword = true → isWordBounded data wide q (stop q) = true)}

private theorem countWith_eq_ncard_occurrences {data : ByteArray} (h : searcher.Finds P)
    (hP : ∀ q, P q → q ≤ data.size) (fullword wide : Bool) :
    countWith searcher data fullword wide =
      (occurrences data fullword wide P searcher.stop).ncard := by
  rw [countWith_eq h hP]
  congr 1
  ext q
  exact ⟨fun hq => ⟨hP q hq.1, hq⟩, fun hq => hq.2⟩

/-- **The counting loop is the naive count.** Let searchers find the first occurrence of each form
at or after any offset, none of which begins beyond the end of the data. Then the loop ends, without
looking up a byte that is not there, and has counted the offsets at which an occurrence begins; a
pattern counts those of all its forms. The searchers of the forms themselves are such. -/
theorem countBy_eq_sum {p : Pattern} {data : ByteArray} {searcher : Variant → Searcher}
    {Begins : Variant → Nat → Prop}
    (hfinds : ∀ v ∈ p.variants, (searcher v).Finds (Begins v))
    (hwithin : ∀ v ∈ p.variants, ∀ q, Begins v q → q ≤ data.size) :
    (∀ v ∈ p.variants, countWith? (searcher v) data p.fullword v.wide =
      some (occurrences data p.fullword v.wide (Begins v) (searcher v).stop).ncard) ∧
    p.countBy searcher data = (p.variants.map fun v =>
      (occurrences data p.fullword v.wide (Begins v) (searcher v).stop).ncard).sum ∧
    p.count data = (p.variants.map fun v =>
      (occurrences data p.fullword v.wide (v.regex.BeginsAt data)
        (v.regex.searcher data).stop).ncard).sum := by
  have hsum (searcher : Variant → Searcher) (Begins : Variant → Nat → Prop)
      (hfinds : ∀ v ∈ p.variants, (searcher v).Finds (Begins v))
      (hwithin : ∀ v ∈ p.variants, ∀ q, Begins v q → q ≤ data.size) :
      p.countBy searcher data = (p.variants.map fun v =>
        (occurrences data p.fullword v.wide (Begins v) (searcher v).stop).ncard).sum := by
    rw [countBy, ← List.sum_eq_foldl]
    refine congrArg List.sum (List.map_congr_left fun v hv => ?_)
    exact countWith_eq_ncard_occurrences (hfinds v hv) (hwithin v hv) _ _
  refine ⟨fun v hv => ?_, hsum searcher Begins hfinds hwithin,
    hsum _ _ (fun v _ => v.regex.finds_searcher data) fun v _ q hq => hq.le⟩
  rw [countWith?_eq (hfinds v hv) (hwithin v hv),
    countWith_eq_ncard_occurrences (hfinds v hv) (hwithin v hv)]

/-- Any number of letters `a`, none included, which have to stand alone. -/
def letters : Pattern where
  name := "letters"
  variants := [⟨.repeated (.set (.single 97)) 0 none true, false⟩]
  fullword := true

/-- Two such letters with a dash between them. -/
def dashed : ByteArray := ⟨#[97, 45, 97]⟩

/-- They are found at all four offsets, the end included, and stand alone at two. -/
theorem countBy_eq_sum_letters :
    letters.countBy (fun v => v.regex.searcher dashed) dashed = 2 ∧
      (∀ v ∈ letters.variants, ∀ q ≤ 3, v.regex.BeginsAt dashed q) ∧
      (letters.variants.map fun v => (occurrences dashed true v.wide (v.regex.BeginsAt dashed)
        (v.regex.searcher dashed).stop).ncard).sum = 2 := by
  have htwo : letters.countBy (fun v => v.regex.searcher dashed) dashed = 2 := by decide +kernel
  have hfinds : ∀ v ∈ letters.variants,
      (v.regex.searcher dashed).Finds (v.regex.BeginsAt dashed) :=
    fun v _ => v.regex.finds_searcher dashed
  have hwithin : ∀ v ∈ letters.variants, ∀ q, v.regex.BeginsAt dashed q → q ≤ dashed.size :=
    fun v _ q hq => hq.le
  obtain ⟨-, hsum, -⟩ := countBy_eq_sum hfinds hwithin
  refine ⟨htwo, fun v hv q hq => ?_, hsum.symm.trans htwo⟩
  obtain rfl := List.mem_singleton.mp hv
  exact ⟨q, hq, 0, Nat.le_refl 0, nofun, rfl⟩

/-! ### Forms that are built -/

/-- A form that is built looks for what it was built from. -/
theorem eq_of_build {limit : Nat} {regex : Regex} {wide : Bool} {v : Variant}
    (h : build limit regex wide = .ok v) : v = ⟨regex, wide⟩ := by
  rw [build] at h
  split_ifs at h
  exact (Except.ok.inj h).symm

end Pattern

end PackageScan
