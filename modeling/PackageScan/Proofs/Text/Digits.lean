import Mathlib.Algebra.Ring.Nat
import Mathlib.Data.List.Induction
import Mathlib.Data.List.TakeWhile
import PackageScan.Decimal.Double
import PackageScan.Text.Blank
import PackageScan.Text.Hexadecimal

/-!
# Digits and the numbers they write

A digit is read as the value that it was written for, in either case (`Hexadecimal.value?_lower`,
`Hexadecimal.value?_upper`), and no other character is (`Hexadecimal.range_of_value?`). The decimal
digits of a number are read as the number (`Decimal.value_toDigits`), with any zeros before them
(`Decimal.value_zeros_append`). Some digits write a number below a power of ten
(`Decimal.value_lt`), and a number below a power of ten has so many digits after its zeros
(`Decimal.length_dropWhile_le`). Readers take digits as long as there are any, which is up to the
character after them (`Text.takeWhile_append_of_stop`).
-/

namespace PackageScan

/-! ### Runs of characters -/

section Runs

variable {p : Char → Bool} {run next : List Char}

/-- A run of characters ends where a character follows that does not belong to it. -/
theorem Text.takeWhile_append_of_stop (hrun : ∀ c ∈ run, p c = true)
    (hnext : next.head?.any p = false) : (run ++ next).takeWhile p = run := by
  rw [List.takeWhile_append_of_pos hrun]
  cases next with
  | nil => exact List.append_nil run
  | cons c rest =>
    have hc : ¬p c = true := Bool.eq_false_iff.mp hnext
    rw [List.takeWhile_cons_of_neg hc, List.append_nil]

@[inherit_doc Text.takeWhile_append_of_stop]
theorem Text.dropWhile_append_of_stop (hrun : ∀ c ∈ run, p c = true)
    (hnext : next.head?.any p = false) : (run ++ next).dropWhile p = next := by
  rw [List.dropWhile_append_of_pos hrun]
  cases next with
  | nil => rfl
  | cons c rest => exact List.dropWhile_cons_of_neg (Bool.eq_false_iff.mp hnext)

end Runs

theorem Text.toList_pushn (s : String) (c : Char) (k : Nat) :
    (s.pushn c k).toList = s.toList ++ List.replicate k c := by
  induction k with
  | zero => exact (List.append_nil _).symm
  | succ k ih =>
    rw [String.pushn_eq_repeat_push] at ih ⊢
    rw [Nat.repeat, String.toList_push, ih, List.append_assoc, List.replicate_succ']

/-! ### Digits -/

theorem Hexadecimal.value?_lower {n : Nat} (h : n < 16) : value? (lower n) = some n := by
  revert n
  decide

theorem Hexadecimal.value?_upper {n : Nat} (h : n < 16) : value? (upper n) = some n := by
  revert n
  decide

/-- The digits and their values. -/
theorem Hexadecimal.range_of_value? {c : Char} {n : Nat} (h : value? c = some n) :
    (48 ≤ c.toNat ∧ c.toNat ≤ 57 ∧ n = c.toNat - 48) ∨
      (97 ≤ c.toNat ∧ c.toNat ≤ 102 ∧ n = c.toNat - 87) ∨
      (65 ≤ c.toNat ∧ c.toNat ≤ 70 ∧ n = c.toNat - 55) := by
  rw [value?] at h
  split_ifs at h with hdigit hlower hupper
  · exact .inl ⟨hdigit.1, hdigit.2, (Option.some.inj h).symm⟩
  · exact .inr (.inl ⟨hlower.1, hlower.2, (Option.some.inj h).symm⟩)
  · exact .inr (.inr ⟨hupper.1, hupper.2, (Option.some.inj h).symm⟩)

theorem Hexadecimal.value?_lt {c : Char} {n : Nat} (h : value? c = some n) : n < 16 := by
  have hrange := range_of_value? h
  omega

namespace Decimal

theorem value_eq_ofDigitChars (ds : List Char) : value ds = Nat.ofDigitChars 10 ds 0 := by
  rw [value, Nat.ofDigitChars_eq_foldl]
  simp only [Nat.mul_comm 10]
  rfl

theorem toList_repr (n : Nat) : (Nat.repr n).toList = Nat.toDigits 10 n := by
  rw [Nat.repr_eq_ofList_toDigits, String.toList_ofList]

theorem value_toDigits (n : Nat) : value (Nat.toDigits 10 n) = n := by
  rw [value_eq_ofDigitChars, Nat.ofDigitChars_ten_toDigits]

theorem value_zeros_append (k : Nat) (ds : List Char) :
    value (List.replicate k '0' ++ ds) = value ds := by
  rw [value_eq_ofDigitChars, value_eq_ofDigitChars, Nat.ofDigitChars_append,
    Nat.ofDigitChars_replicate_zero, Nat.mul_zero]

theorem value_lt {ds : List Char} (h : ∀ d ∈ ds, d.isDigit = true) :
    value ds < 10 ^ ds.length := by
  induction ds using List.reverseRecOn with
  | nil => exact Nat.one_pos
  | append_singleton ds d ih =>
    have hds : value ds < 10 ^ ds.length := ih fun c hc => h c (List.mem_append_left [d] hc)
    have hd : d.toNat ≤ 57 := by
      have hdigit := h d (by simp)
      simp only [Char.isDigit, Bool.and_eq_true, decide_eq_true_eq] at hdigit
      exact hdigit.2
    have hvalue : value (ds ++ [d]) = value ds * 10 + (d.toNat - 48) := by
      rw [value, List.foldl_append]
      rfl
    rw [hvalue, List.length_append, List.length_singleton, Nat.pow_succ]
    omega

theorem length_dropWhile_le {ds : List Char} {n : Nat} (h : ∀ d ∈ ds, d.isDigit = true)
    (hvalue : value ds < 10 ^ n) : (ds.dropWhile (· == '0')).length ≤ n := by
  induction ds with
  | nil => exact Nat.zero_le n
  | cons d ds ih =>
    obtain ⟨hd, hds⟩ := List.forall_mem_cons.mp h
    by_cases hzero : d = '0'
    · obtain rfl := hzero
      rw [List.dropWhile_cons_of_pos (by rfl)]
      rw [show '0' :: ds = List.replicate 1 '0' ++ ds from rfl, value_zeros_append] at hvalue
      exact ih hds hvalue
    · have hpos : 0 < d.toNat - 48 := by
        simp only [Char.isDigit, Bool.and_eq_true, decide_eq_true_eq] at hd
        have hne : d.toNat ≠ 48 := fun heq => hzero (Char.toNat_inj.mp heq)
        have hle : 48 ≤ d.toNat := hd.1
        omega
      have hpow : 10 ^ ds.length < 10 ^ n := by
        rw [value_eq_ofDigitChars, Nat.ofDigitChars_cons, Nat.mul_zero, Nat.zero_add,
          Nat.ofDigitChars_eq_ofDigitChars_zero] at hvalue
        refine Nat.lt_of_le_of_lt ?_ hvalue
        exact Nat.le_trans (Nat.le_mul_of_pos_right _ hpos) (Nat.le_add_right _ _)
      rw [List.dropWhile_cons_of_neg (by simpa using hzero)]
      exact (Nat.pow_lt_pow_iff_right (by decide)).mp hpow

theorem isDigit_of_mem_toDigits {n : Nat} {d : Char} (h : d ∈ Nat.toDigits 10 n) :
    d.isDigit = true :=
  Nat.isDigit_of_mem_toDigits (by decide) (by decide) h

theorem not_isBlank_of_isDigit {d : Char} (h : d.isDigit = true) : Text.isBlank d = false := by
  have hrange : 48 ≤ d.toNat ∧ d.toNat ≤ 57 := by
    simp only [Char.isDigit, Bool.and_eq_true, decide_eq_true_eq] at h
    exact h
  simp only [Text.isBlank, Bool.or_eq_false_iff, Bool.and_eq_false_iff, decide_eq_false_iff_not,
    beq_eq_false_iff_ne]
  omega

end Decimal

end PackageScan
