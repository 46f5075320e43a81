import Mathlib.Data.Nat.Find
import PackageScan.Regex.Basic

/-!
# Where matches begin

Matching runs backwards over tables of offsets. What it computes is stated here in terms of the
runs that a pattern describes: `r.starts data goal` holds exactly the offsets from which a match
leads into the goal (`Regex.contains_starts`), so that the table of beginnings is that of
`Regex.BeginsAt`, and a search in it finds the first beginning there is (`Regex.finds_searcher`).

Only repetitions need an argument. They stop early when a round adds nothing, which loses nothing
because every later round would add nothing either; and an unbounded one makes one round more than
there are bytes, which is enough since runs that take no byte can be left out
(`Regex.Steps.exists_le`).
-/

namespace PackageScan

theorem lt_of_byteAt? {data : ByteArray} {p : Nat} {b : UInt8} (h : byteAt? data p = some b) :
    p < data.size := by
  rw [byteAt?] at h
  split_ifs at h with hp
  exact hp

/-! ### Tables -/

namespace Offsets

variable {s t : Offsets} {p q : Nat}

/-- No member is beyond the given offset. -/
def Within (size : Nat) (s : Offsets) : Prop := ∀ p, s.contains p = true → p ≤ size

private theorem contains_tabulate {n : Nat} {f : Nat → Bool} :
    (tabulate n f).contains p = true ↔ p < n ∧ f p = true := by
  rw [contains, tabulate, Array.getD_eq_getD_getElem?, Array.getElem?_ofFn]
  split_ifs with hp
  · simp [hp]
  · simp [hp]

private theorem contains_union {n : Nat} :
    (union n s t).contains p = true ↔ p < n ∧ (s.contains p = true ∨ t.contains p = true) := by
  rw [union, contains_tabulate, Bool.or_eq_true]

private theorem nextFrom?_eq_some {fuel : Nat} :
    s.nextFrom? fuel p = some q ↔
      p ≤ q ∧ q < p + fuel ∧ s.contains q = true ∧ ∀ t, p ≤ t → t < q → ¬s.contains t = true := by
  induction fuel generalizing p with
  | zero =>
    rw [nextFrom?]
    exact iff_of_false nofun fun h => by omega
  | succ fuel ih =>
    rw [nextFrom?]
    split_ifs with hp
    · rw [Option.some.injEq]
      constructor
      · rintro rfl
        exact ⟨Nat.le_refl p, by omega, hp, fun t ht htp => by omega⟩
      · rintro ⟨hle, -, -, hfirst⟩
        by_contra hne
        exact hfirst p (Nat.le_refl p) (by omega) hp
    · rw [ih]
      constructor
      · rintro ⟨hle, hlt, hq, hfirst⟩
        refine ⟨by omega, by omega, hq, fun t ht htq => ?_⟩
        rcases Nat.eq_or_lt_of_le ht with rfl | hlt
        · exact hp
        · exact hfirst t hlt htq
      · rintro ⟨hle, hlt, hq, hfirst⟩
        have hne : p ≠ q := by
          rintro rfl
          exact hp hq
        exact ⟨by omega, by omega, hq, fun t ht => hfirst t (by omega)⟩

/-- The next member is the first one at or after the offset. -/
private theorem next?_eq_some :
    s.next? p = some q ↔
      p ≤ q ∧ s.contains q = true ∧ ∀ t, p ≤ t → t < q → ¬s.contains t = true := by
  rw [next?, nextFrom?_eq_some]
  constructor
  · rintro ⟨hle, -, hq, hfirst⟩
    exact ⟨hle, hq, hfirst⟩
  · rintro ⟨hle, hq, hfirst⟩
    have hsize : q < s.table.size := by
      by_contra hge
      rw [contains, Array.getD_eq_getD_getElem?, Array.getElem?_eq_none (by omega)] at hq
      exact nomatch hq
    exact ⟨hle, by omega, hq, hfirst⟩

end Offsets

namespace Regex

variable {data : ByteArray} {goal : Offsets} {p q m n : Nat}

/-! ### Steps -/

section Steps

variable {S : Nat → Nat → Prop}

private theorem steps_add : Steps S (m + n) p q ↔ ∃ k, Steps S m p k ∧ Steps S n k q := by
  induction m generalizing p with
  | zero => simp [Steps]
  | succ m ih =>
    rw [Nat.succ_add]
    simp only [Steps, ih]
    constructor
    · rintro ⟨i, hi, k, hk, h⟩
      exact ⟨k, ⟨i, hi, hk⟩, h⟩
    · rintro ⟨k, ⟨i, hi, hk⟩, h⟩
      exact ⟨i, hi, k, hk, h⟩

private theorem steps_succ : Steps S (n + 1) p q ↔ ∃ m, Steps S n p m ∧ S m q := by
  rw [steps_add]
  refine exists_congr fun m => and_congr_right fun _ => ?_
  simp [Steps]

theorem Steps.le (hS : ∀ p q, S p q → p ≤ q) (h : Steps S n p q) : p ≤ q := by
  induction n generalizing p with
  | zero => exact Nat.le_of_eq h
  | succ n ih =>
    obtain ⟨m, hm, h⟩ := h
    exact Nat.le_trans (hS p m hm) (ih h)

/-- Steps that go nowhere can be left out, so there need not be more than offsets between the
ends. -/
theorem Steps.exists_le (hS : ∀ p q, S p q → p ≤ q) (h : Steps S n p q) :
    ∃ k ≤ q - p, Steps S k p q := by
  induction n generalizing p with
  | zero => exact ⟨0, Nat.zero_le _, h⟩
  | succ n ih =>
    obtain ⟨m, hm, h⟩ := h
    obtain ⟨k, hk, hsteps⟩ := ih h
    have hpm : p ≤ m := hS p m hm
    have hmq : m ≤ q := hsteps.le hS
    rcases Nat.eq_or_lt_of_le hpm with rfl | hlt
    · exact ⟨k, hk, hsteps⟩
    · exact ⟨k + 1, by omega, m, hm, hsteps⟩

/-- From the offset at most `n` steps lead into the goal. -/
def Reaches (S : Nat → Nat → Prop) (goal : Offsets) (n p : Nat) : Prop :=
  ∃ k ≤ n, ∃ q, Steps S k p q ∧ goal.contains q = true

private theorem reaches_zero : Reaches S goal 0 p ↔ goal.contains p = true := by
  constructor
  · rintro ⟨k, hk, q, hsteps, hq⟩
    obtain rfl : k = 0 := Nat.le_zero.mp hk
    obtain rfl : p = q := hsteps
    exact hq
  · exact fun hp => ⟨0, Nat.le_refl 0, p, rfl, hp⟩

private theorem reaches_succ :
    Reaches S goal (n + 1) p ↔ goal.contains p = true ∨ ∃ m, S p m ∧ Reaches S goal n m := by
  constructor
  · rintro ⟨k, hk, q, hsteps, hq⟩
    cases k with
    | zero =>
      obtain rfl : p = q := hsteps
      exact .inl hq
    | succ k =>
      obtain ⟨m, hm, hsteps⟩ := hsteps
      exact .inr ⟨m, hm, k, by omega, q, hsteps, hq⟩
  · rintro (hp | ⟨m, hm, k, hk, q, hsteps, hq⟩)
    · exact ⟨0, Nat.zero_le _, p, rfl, hp⟩
    · exact ⟨k + 1, by omega, q, ⟨m, hm, hsteps⟩, hq⟩

/-- Where one step more adds nothing, no number of steps does. -/
private theorem reaches_of_stable (hstable : ∀ p, Reaches S goal (m + 1) p ↔ Reaches S goal m p)
    (n p : Nat) : Reaches S goal (m + n) p ↔ Reaches S goal m p := by
  induction n generalizing p with
  | zero => exact Iff.rfl
  | succ n ih =>
    rw [← hstable, Nat.add_succ, reaches_succ, reaches_succ]
    simp only [ih]

/-- A transformation of tables that goes back by one step. -/
def IsStepBack (size : Nat) (S : Nat → Nat → Prop) (f : Offsets → Offsets) : Prop :=
  ∀ goal : Offsets, goal.Within size →
    ∀ p, (f goal).contains p = true ↔ ∃ q, S p q ∧ goal.contains q = true

variable {size : Nat} {f : Offsets → Offsets} {reached : Offsets}

theorem IsStepBack.within (hf : IsStepBack size S f) (hS : ∀ p q, S p q → p ≤ q)
    (hgoal : goal.Within size) : (f goal).Within size := by
  intro p hp
  obtain ⟨q, hpq, hq⟩ := (hf goal hgoal p).mp hp
  exact Nat.le_trans (hS p q hpq) (hgoal q hq)

/-- A table that one step back does not change, no number of steps does. -/
private theorem IsStepBack.contains_of_eq (hf : IsStepBack size S f) (hgoal : goal.Within size)
    (hstable : f goal = goal) (n p : Nat) :
    goal.contains p = true ↔ ∃ q, Steps S n p q ∧ goal.contains q = true := by
  induction n generalizing p with
  | zero => simp [Steps]
  | succ n ih =>
    have hstep := hf goal hgoal p
    rw [hstable] at hstep
    rw [hstep]
    constructor
    · rintro ⟨m, hm, hgoal⟩
      obtain ⟨q, hsteps, hq⟩ := (ih m).mp hgoal
      exact ⟨q, ⟨m, hm, hsteps⟩, hq⟩
    · rintro ⟨q, ⟨m, hm, hsteps⟩, hq⟩
      exact ⟨m, hm, (ih m).mpr ⟨q, hsteps, hq⟩⟩

private theorem contains_stepsBack (hf : IsStepBack size S f) (hS : ∀ p q, S p q → p ≤ q)
    (hgoal : goal.Within size) :
    (stepsBack f n goal).contains p = true ↔ ∃ q, Steps S n p q ∧ goal.contains q = true := by
  induction n generalizing goal with
  | zero => simp [stepsBack, Steps]
  | succ n ih =>
    rw [stepsBack]
    split_ifs with hstable
    · exact hf.contains_of_eq hgoal hstable (n + 1) p
    · rw [ih (hf.within hS hgoal)]
      constructor
      · rintro ⟨m, hsteps, hm⟩
        obtain ⟨q, hmq, hq⟩ := (hf goal hgoal m).mp hm
        exact ⟨q, steps_succ.mpr ⟨m, hsteps, hmq⟩, hq⟩
      · rintro ⟨q, hsteps, hq⟩
        obtain ⟨m, hsteps, hmq⟩ := steps_succ.mp hsteps
        exact ⟨m, hsteps, (hf goal hgoal m).mpr ⟨q, hmq, hq⟩⟩

private theorem contains_stepsBackUpTo (hf : IsStepBack size S f) (hS : ∀ p q, S p q → p ≤ q)
    (hgoal : goal.Within size)
    (hreached : ∀ p, reached.contains p = true ↔ Reaches S goal m p) :
    (stepsBackUpTo (size + 1) f goal n reached).contains p = true ↔ Reaches S goal (m + n) p := by
  induction n generalizing m reached with
  | zero => exact hreached p
  | succ n ih =>
    have hwithin : reached.Within size := by
      intro p hp
      obtain ⟨k, -, q, hsteps, hq⟩ := (hreached p).mp hp
      exact Nat.le_trans (hsteps.le hS) (hgoal q hq)
    have hmore (p : Nat) : (goal.union (size + 1) (f reached)).contains p = true ↔
        Reaches S goal (m + 1) p := by
      rw [Offsets.contains_union, hf reached hwithin, reaches_succ]
      simp only [hreached]
      refine and_iff_right_of_imp fun h => ?_
      obtain ⟨k, -, q, hsteps, hq⟩ := reaches_succ.mpr h
      exact Nat.lt_succ_of_le (Nat.le_trans (hsteps.le hS) (hgoal q hq))
    rw [stepsBackUpTo]
    split_ifs with hstable
    · rw [hreached, reaches_of_stable fun p => ?_]
      rw [← hmore, hstable, hreached]
    · rw [ih hmore, Nat.add_assoc, Nat.add_comm 1 n]

end Steps

/-! ### Patterns -/

/-- A run lies within the data. -/
theorem Matches.le {r : Regex} (h : r.Matches data p q) : p ≤ q ∧ q ≤ data.size := by
  induction r generalizing p q with
  | empty =>
    obtain ⟨rfl, hp⟩ := h
    exact ⟨Nat.le_refl p, hp⟩
  | set bytes =>
    obtain ⟨rfl, b, hb, -⟩ := h
    exact ⟨Nat.le_succ p, lt_of_byteAt? hb⟩
  | look assertion =>
    obtain ⟨rfl, hp, -⟩ := h
    exact ⟨Nat.le_refl p, hp⟩
  | group inner ih => exact ih h
  | seq left right ihl ihr =>
    obtain ⟨m, hl, hr⟩ := h
    exact ⟨Nat.le_trans (ihl hl).1 (ihr hr).1, (ihr hr).2⟩
  | alt left right ihl ihr => exact h.elim ihl ihr
  | repeated inner least most greedy ih =>
    obtain ⟨hp, n, -, -, hsteps⟩ := h
    clear least most greedy
    induction n generalizing p with
    | zero =>
      obtain rfl : p = q := hsteps
      exact ⟨Nat.le_refl p, hp⟩
    | succ n ihn =>
      obtain ⟨m, hm, hsteps⟩ := hsteps
      obtain ⟨hpm, hsize⟩ := ih hm
      obtain ⟨hmq, hq⟩ := ihn hsize hsteps
      exact ⟨Nat.le_trans hpm hmq, hq⟩

/-- A match begins within the data or at its end. -/
theorem BeginsAt.le {r : Regex} (h : r.BeginsAt data p) : p ≤ data.size := by
  obtain ⟨q, hmatches⟩ := h
  exact Nat.le_trans hmatches.le.1 hmatches.le.2

/-- A match of a repetition that leads into the goal: the runs that there have to be, and after
them more that there may be. -/
private theorem exists_matches_repeated {inner : Regex} {least : Nat} {most : Option Nat}
    {greedy : Bool}
    (hgoal : goal.Within data.size) :
    (∃ q, (repeated inner least most greedy).Matches data p q ∧ goal.contains q = true) ↔
      (∀ m ∈ most, least ≤ m) ∧ ∃ k, Steps (inner.Matches data) least p k ∧
        Reaches (inner.Matches data) goal
          (match most with | none => data.size + 1 | some most => most - least) k := by
  have hle (p q : Nat) (h : inner.Matches data p q) : p ≤ q := h.le.1
  constructor
  · rintro ⟨q, ⟨-, n, hleast, hmost, hsteps⟩, hq⟩
    rw [← Nat.add_sub_cancel' hleast] at hsteps
    obtain ⟨k, hfirst, hmore⟩ := steps_add.mp hsteps
    refine ⟨fun m hm => Nat.le_trans hleast (hmost m hm), k, hfirst, ?_⟩
    cases most with
    | none =>
      -- more runs than there are bytes are not needed
      obtain ⟨j, hj, hmore⟩ := hmore.exists_le hle
      have hsize : q ≤ data.size := hgoal q hq
      have hj : j ≤ data.size + 1 := by omega
      exact ⟨j, hj, q, hmore, hq⟩
    | some m =>
      have hm : n ≤ m := hmost m rfl
      exact ⟨n - least, by dsimp only; omega, q, hmore, hq⟩
  · rintro ⟨hbounds, k, hfirst, j, hj, q, hmore, hq⟩
    have hsteps : Steps (inner.Matches data) (least + j) p q := steps_add.mpr ⟨k, hfirst, hmore⟩
    have hp : p ≤ data.size := Nat.le_trans (hsteps.le hle) (hgoal q hq)
    refine ⟨q, ⟨hp, least + j, Nat.le_add_right least j, fun m hm => ?_, hsteps⟩, hq⟩
    obtain rfl : most = some m := hm
    have hm : least ≤ m := hbounds m rfl
    dsimp only at hj
    omega

private theorem contains_starts_set {bytes : ByteSet} :
    ((set bytes).starts data goal).contains p = true ↔
      ∃ q, (set bytes).Matches data p q ∧ goal.contains q = true := by
  rw [starts, Offsets.contains_tabulate]
  constructor
  · rintro ⟨-, hp⟩
    split at hp
    · rename_i b hb
      rw [Bool.and_eq_true] at hp
      exact ⟨p + 1, ⟨rfl, b, hb, hp.1⟩, hp.2⟩
    · exact nomatch hp
  · rintro ⟨q, ⟨rfl, b, hb, hbytes⟩, hq⟩
    have hlt := lt_of_byteAt? hb
    rw [hb]
    exact ⟨by omega, Bool.and_eq_true_iff.mpr ⟨hbytes, hq⟩⟩

/-- A repetition goes back by the runs that there may be, and then by those that there have to
be. -/
private theorem contains_starts_repeated {inner : Regex} {least : Nat} {most : Option Nat}
    {greedy : Bool}
    (hback : IsStepBack data.size (inner.Matches data) (inner.starts data))
    (hgoal : goal.Within data.size) :
    ((repeated inner least most greedy).starts data goal).contains p = true ↔
      ∃ q, (repeated inner least most greedy).Matches data p q ∧ goal.contains q = true := by
  have hle (p q : Nat) (h : inner.Matches data p q) : p ≤ q := h.le.1
  rw [exists_matches_repeated hgoal, starts.eq_def]
  dsimp only
  split_ifs with hreversed
  · obtain ⟨m, rfl, hm⟩ := Option.any_eq_true _ _ |>.mp hreversed
    rw [Offsets.contains_tabulate]
    refine iff_of_false (fun h => nomatch h.2) fun h => ?_
    exact Nat.not_le_of_lt (of_decide_eq_true hm) (h.1 m rfl)
  · have hbounds : ∀ m ∈ most, least ≤ m := by
      intro m hm
      by_contra hlt
      refine hreversed ((Option.any_eq_true _ _).mpr ⟨m, hm, decide_eq_true ?_⟩)
      omega
    have hreached (optional k : Nat) :
        (stepsBackUpTo (data.size + 1) (inner.starts data) goal optional goal).contains k =
          true ↔ Reaches (inner.Matches data) goal optional k := by
      have hupTo := contains_stepsBackUpTo (m := 0) (n := optional) (p := k) hback hle hgoal
        fun p => reaches_zero.symm
      rwa [Nat.zero_add] at hupTo
    have hwithin (optional : Nat) : (stepsBackUpTo (data.size + 1) (inner.starts data) goal
        optional goal).Within data.size := by
      intro k hk
      obtain ⟨j, -, q, hsteps, hq⟩ := (hreached optional k).mp hk
      exact Nat.le_trans (hsteps.le hle) (hgoal q hq)
    rw [contains_stepsBack hback hle (hwithin _)]
    simp only [hreached]
    exact (and_iff_right hbounds).symm

/-- **Where matches begin.** The offsets that are found backwards are those from which a match
leads into the goal. -/
theorem contains_starts {r : Regex} (hgoal : goal.Within data.size) :
    (r.starts data goal).contains p = true ↔
      ∃ q, r.Matches data p q ∧ goal.contains q = true := by
  induction r generalizing goal p with
  | empty =>
    rw [starts]
    constructor
    · exact fun hp => ⟨p, ⟨rfl, hgoal p hp⟩, hp⟩
    · rintro ⟨q, ⟨rfl, -⟩, hq⟩
      exact hq
  | set bytes => exact contains_starts_set
  | look assertion =>
    rw [starts, Offsets.contains_tabulate, Bool.and_eq_true]
    constructor
    · rintro ⟨hp, hcontains, hholds⟩
      exact ⟨p, ⟨rfl, Nat.le_of_lt_succ hp, hholds⟩, hcontains⟩
    · rintro ⟨q, ⟨rfl, hp, hholds⟩, hq⟩
      exact ⟨Nat.lt_succ_of_le hp, hq, hholds⟩
  | group inner ih => exact ih hgoal
  | seq left right ihl ihr =>
    have hright : (right.starts data goal).Within data.size := by
      intro m hm
      obtain ⟨q, hmatches, hq⟩ := (ihr hgoal).mp hm
      exact Nat.le_trans hmatches.le.1 (hgoal q hq)
    rw [starts, ihl hright]
    constructor
    · rintro ⟨m, hl, hm⟩
      obtain ⟨q, hr, hq⟩ := (ihr hgoal).mp hm
      exact ⟨q, ⟨m, hl, hr⟩, hq⟩
    · rintro ⟨q, ⟨m, hl, hr⟩, hq⟩
      exact ⟨m, hl, (ihr hgoal).mpr ⟨q, hr, hq⟩⟩
  | alt left right ihl ihr =>
    rw [starts, Offsets.contains_union, ihl hgoal, ihr hgoal]
    constructor
    · rintro ⟨-, ⟨q, h, hq⟩ | ⟨q, h, hq⟩⟩
      · exact ⟨q, .inl h, hq⟩
      · exact ⟨q, .inr h, hq⟩
    · rintro ⟨q, h, hq⟩
      have hp : p < data.size + 1 := by
        have hle := Matches.le (r := .alt left right) h
        omega
      exact ⟨hp, h.imp (fun h => ⟨q, h, hq⟩) fun h => ⟨q, h, hq⟩⟩
  | repeated inner least most greedy ih =>
    exact contains_starts_repeated (fun goal hgoal p => ih hgoal) hgoal

/-- The table of beginnings is that of the offsets at which a match begins. -/
private theorem contains_beginnings {r : Regex} :
    (r.beginnings data).contains p = true ↔ r.BeginsAt data p := by
  have hall (q : Nat) : (Offsets.tabulate (data.size + 1) fun _ => true).contains q = true ↔
      q < data.size + 1 := by
    rw [Offsets.contains_tabulate]
    exact and_iff_left rfl
  rw [beginnings, contains_starts fun q hq => Nat.le_of_lt_succ ((hall q).mp hq)]
  refine exists_congr fun q => ?_
  rw [hall]
  exact and_iff_left_of_imp fun h => Nat.lt_succ_of_le h.le.2

end Regex

/-! ### Searching -/

/-- The searcher finds the first offset with the property at or after the one it is asked for, if
there is one. -/
def Searcher.Finds (s : Searcher) (P : Nat → Prop) : Prop :=
  ∀ p q, s.next? p = some q ↔ p ≤ q ∧ P q ∧ ∀ t, p ≤ t → t < q → ¬P t

/-- **A pattern's searcher finds the first beginning of a match.** -/
theorem Regex.finds_searcher (r : Regex) (data : ByteArray) :
    (r.searcher data).Finds (r.BeginsAt data) := by
  intro p q
  rw [show (r.searcher data).next? p = (r.beginnings data).next? p from rfl,
    Offsets.next?_eq_some]
  simp only [contains_beginnings]

end PackageScan
