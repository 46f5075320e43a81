import Mathlib.Data.Nat.Digits.Lemmas
import PackageScan.Proofs.Rule.TokenReading

/-!
# Integers as they are written

An integer is written as a numeral (`Numeral`): digits of base ten, or of base sixteen after a mark,
and perhaps a suffix that multiplies. Its value is that of the digits, however many there are, times
the factor of the suffix. The reader of integers takes the whole of a numeral that no character of a
word follows and answers with its value, or reports an overflow if that is beyond the largest one
(`Token.readInteger_text_append`). It does neither where there is no numeral
(`Token.exists_numeral_or_malformed`).

The largest value is that of sixty-four bits with a sign, and in these an operation may overflow.
`Numeral.magnitude?` computes the value of a numeral there, digit by digit, and gives up at the
first operation with a result that does not fit. As no operation makes a number smaller, it gives up
exactly if the value itself does not fit (`Numeral.magnitude?_eq_some`), and so it agrees with the
reader (`Numeral.integerValue?_eq_map_magnitude?`). The sign is applied at last and is not checked,
for what is not below zero has an opposite that fits (`Numeral.toInt_signed`).
-/

namespace PackageScan

/-! ### Numerals -/

namespace Numeral

/-- The mark before the digits, which says in which base they are. -/
inductive Mark where
  | decimal
  | lower
  | upper
  deriving DecidableEq, Repr

/-- What stands behind the digits and multiplies their value. -/
inductive Suffix where
  | one
  | kilobytes
  | megabytes
  deriving DecidableEq, Repr

/-- The characters of the mark. -/
def Mark.text : Mark → List Char
  | decimal => []
  | lower => ['0', 'x']
  | upper => ['0', 'X']

/-- The base of the digits behind the mark. -/
def Mark.base : Mark → Nat
  | decimal => 10
  | lower | upper => 16

/-- Is the character a digit of the base? -/
def Mark.isDigit : Mark → Char → Bool
  | decimal => Char.isDigit
  | lower | upper => Hexadecimal.isDigit

/-- The characters of the suffix. -/
def Suffix.text : Suffix → List Char
  | one => []
  | kilobytes => ['K', 'B']
  | megabytes => ['M', 'B']

/-- What the suffix multiplies by. -/
def Suffix.factor : Suffix → Nat
  | one => 1
  | kilobytes => 1024
  | megabytes => 1048576

/-- The value of a digit of either base. -/
def digit (c : Char) : Nat := (Hexadecimal.value? c).getD 0

/-- The characters of a sign. -/
def signText (negative : Bool) : List Char := if negative then ['-'] else []

/-- What a sign multiplies by. -/
def signFactor (negative : Bool) : Int := if negative then -1 else 1

end Numeral

/-- An integer as it is written behind its sign. -/
structure Numeral where
  /-- The mark of the base. -/
  mark : Numeral.Mark
  /-- The digits, the first one first. -/
  digits : List Char
  /-- What multiplies them. -/
  suffix : Numeral.Suffix
  /-- There are digits. -/
  ne_nil : digits ≠ []
  /-- The digits are of the base. -/
  isDigit : ∀ d ∈ digits, mark.isDigit d = true

namespace Numeral

/-- The characters of the numeral. -/
def text (n : Numeral) : List Char := n.mark.text ++ (n.digits ++ n.suffix.text)

/-- The number that the digits write in their base. -/
def number (n : Numeral) : Nat := Nat.ofDigits n.mark.base (n.digits.reverse.map digit)

/-- The number that the numeral stands for. -/
def value (n : Numeral) : Nat := n.number * n.suffix.factor

variable {d : Char} {ds : List Char} {n : Numeral}

private theorem Mark.isDigit_iff_of_decimal :
    Mark.decimal.isDigit d = true ↔ 48 ≤ d.toNat ∧ d.toNat ≤ 57 :=
  Char.isDigit_iff_toNat

/-- A digit of base ten is one of base sixteen. -/
theorem Mark.isDigit_hexadecimal {mark : Mark} (h : mark.isDigit d = true) :
    Hexadecimal.isDigit d = true := by
  cases mark with
  | decimal =>
    have hvalue : Hexadecimal.value? d = some (d.toNat - 48) :=
      if_pos (Mark.isDigit_iff_of_decimal.mp h)
    exact Option.isSome_of_eq_some hvalue
  | lower => exact h
  | upper => exact h

/-- Only zero has no value. -/
private theorem digit_ne_zero (h : Hexadecimal.isDigit d = true) (hd : d ≠ '0') : digit d ≠ 0 := by
  obtain ⟨value, hvalue⟩ := Option.isSome_iff_exists.mp h
  have hne : d.toNat ≠ 48 := fun he => hd (Char.toNat_inj.mp he)
  rw [digit, hvalue, Option.getD_some]
  rcases Hexadecimal.range_of_value? hvalue with hrange | hrange | hrange <;> omega

private theorem Mark.ten_le_base (mark : Mark) : 10 ≤ mark.base := by cases mark <;> decide

private theorem Suffix.factor_pos (suffix : Suffix) :
    0 < suffix.factor := by cases suffix <;> decide

theorem text_ne_nil (n : Numeral) : n.text ≠ [] := by
  have hne := n.ne_nil
  simp [text, hne]

/-- A numeral begins with a digit of base ten. -/
theorem any_head?_text (n : Numeral) : n.text.head?.any Char.isDigit = true := by
  cases hbase : n.mark with
  | lower | upper =>
    rw [text, hbase]
    rfl
  | decimal =>
    obtain ⟨d, ds, hds⟩ := List.exists_cons_of_ne_nil n.ne_nil
    have hd := n.isDigit d (by rw [hds]; exact List.mem_cons_self)
    rw [hbase] at hd
    rw [text, hbase, hds]
    exact hd

/-- A numeral consists of characters of words. -/
theorem isWordChar_of_mem_text (n : Numeral) : ∀ c ∈ n.text, Token.isWordChar c = true := by
  have hmark : n.mark.text.all Token.isWordChar = true := by cases n.mark <;> rfl
  have hsuffix : n.suffix.text.all Token.isWordChar = true := by cases n.suffix <;> rfl
  have hdigits : ∀ c ∈ n.digits, Token.isWordChar c = true := fun c hc =>
    Token.isWordChar_of_isDigit (Mark.isDigit_hexadecimal (n.isDigit c hc))
  exact List.forall_mem_append.mpr ⟨List.all_eq_true.mp hmark,
    List.forall_mem_append.mpr ⟨hdigits, List.all_eq_true.mp hsuffix⟩⟩

/-! ### The value of digits -/

private theorem digitsValue_concat (base : Nat) (ds : List Char) (d : Char) :
    Token.digitsValue base (ds ++ [d]) = Token.digitsValue base ds * base + digit d := by
  rw [Token.digitsValue, List.foldl_append]
  rfl

/-- The value that is computed from the first digit on is the number that the digits write. -/
private theorem digitsValue_eq_ofDigits (base : Nat) (ds : List Char) :
    Token.digitsValue base ds = Nat.ofDigits base (ds.reverse.map digit) := by
  induction ds using List.reverseRecOn with
  | nil => rfl
  | append_singleton ds d ih =>
    rw [digitsValue_concat, ih, List.reverse_append, List.reverse_singleton,
      List.singleton_append, List.map_cons, Nat.ofDigits_cons, Nat.mul_comm, Nat.add_comm]

/-- Zeros before the digits do not count. -/
private theorem digitsValue_dropWhile (base : Nat) (ds : List Char) :
    Token.digitsValue base (ds.dropWhile (· == '0')) = Token.digitsValue base ds := by
  induction ds with
  | nil => rfl
  | cons d ds ih =>
    by_cases hd : d = '0'
    · obtain rfl := hd
      have hzero : Token.digitsValue base ('0' :: ds) = Token.digitsValue base ds := by
        rw [Token.digitsValue, List.foldl_cons, Nat.zero_mul]
        rfl
      rw [List.dropWhile_cons_of_pos (by rfl), ih, hzero]
    · rw [List.dropWhile_cons_of_neg (by simpa using hd)]

/-- Digits of which the first is not zero write no less than the power for their number. -/
private theorem pow_le_digitsValue {base : Nat} (hbase : 10 ≤ base) (hd : digit d ≠ 0) :
    base ^ ds.length ≤ Token.digitsValue base (d :: ds) := by
  obtain ⟨b, rfl⟩ := Nat.exists_eq_add_of_le' (Nat.le_trans (by decide : 2 ≤ 10) hbase)
  have hne : (d :: ds).reverse.map digit ≠ [] := by simp
  have hlast : ((d :: ds).reverse.map digit).getLast hne ≠ 0 := by simpa using hd
  have hpow := Nat.pow_length_le_mul_ofDigits (b := b) hne hlast
  rw [← digitsValue_eq_ofDigits, List.length_map, List.length_reverse, List.length_cons,
    Nat.pow_succ, Nat.mul_comm] at hpow
  exact Nat.le_of_mul_le_mul_left hpow (Nat.succ_pos _)

/-- More than nineteen digits behind the zeros write a number that is too large. -/
private theorem integerMax_lt_digitsValue {base : Nat} (hbase : 10 ≤ base)
    (hds : ∀ d ∈ ds, Hexadecimal.isDigit d = true)
    (hlength : 19 < (ds.dropWhile (· == '0')).length) :
    Token.integerMax < Token.digitsValue base ds := by
  rw [← digitsValue_dropWhile]
  have hmem {d : Char} (h : d ∈ ds.dropWhile (· == '0')) : Hexadecimal.isDigit d = true :=
    hds d ((List.dropWhile_sublist _).subset h)
  have hhead := List.head?_dropWhile_not (· == '0') ds
  cases hrest : ds.dropWhile (· == '0') with
  | nil =>
    rw [hrest] at hlength
    exact absurd hlength (by simp)
  | cons d rest =>
    rw [hrest] at hlength hmem hhead
    have hd : d ≠ '0' := by simpa using hhead
    have hpow : base ^ rest.length ≤ Token.digitsValue base (d :: rest) :=
      pow_le_digitsValue hbase (digit_ne_zero (hmem List.mem_cons_self) hd)
    calc Token.integerMax < 10 ^ 19 := by decide
      _ ≤ base ^ 19 := Nat.pow_le_pow_left hbase 19
      _ ≤ base ^ rest.length :=
        Nat.pow_le_pow_right (Nat.lt_of_lt_of_le (by decide) hbase) (Nat.le_of_lt_succ hlength)
      _ ≤ _ := hpow

/-- **Values of numerals.** The value is computed unless it is beyond the largest one, however many
digits there are. -/
theorem integerValue?_eq (n : Numeral) :
    Token.integerValue? n.mark.base n.suffix.factor n.digits =
      if Token.integerMax < n.value then none else some n.value := by
  rw [value, number, ← digitsValue_eq_ofDigits, Token.integerValue?]
  split_ifs with hlength hmax
  · rfl
  · have hlarge := integerMax_lt_digitsValue n.mark.ten_le_base
      (fun d hd => Mark.isDigit_hexadecimal (n.isDigit d hd)) hlength
    exact absurd (Nat.lt_of_lt_of_le hlarge (Nat.le_mul_of_pos_right _ n.suffix.factor_pos)) hmax
  · exact if_pos ‹_›
  · exact if_neg ‹_›

/-! ### Sixty-four bits with a sign -/

/-- The number in sixty-four bits, unless it does not fit. -/
def checked? (n : Int) : Option Int64 :=
  if h : Int64.minValue.toInt ≤ n ∧ n ≤ Int64.maxValue.toInt then some (.ofIntLE n h.1 h.2)
  else none

/-- A product, unless it does not fit. -/
def mul? (a b : Int64) : Option Int64 := checked? (a.toInt * b.toInt)

/-- A sum, unless it does not fit. -/
def add? (a b : Int64) : Option Int64 := checked? (a.toInt + b.toInt)

/-- A number with one digit more behind its own. -/
def push? (base : Nat) (a : Int64) (d : Char) : Option Int64 := do
  let shifted ← mul? a (.ofNat base)
  add? shifted (.ofNat (digit d))

/-- The number that digits write. -/
def digits? (base : Nat) (ds : List Char) : Option Int64 := ds.foldlM (push? base) 0

/-- The value of the numeral, computed with operations that give up where they would overflow. -/
def magnitude? (n : Numeral) : Option Int64 := do
  let number ← digits? n.mark.base n.digits
  mul? number (.ofNat n.suffix.factor)

/-- The value with a sign. The negation is not checked. -/
def signed (negative : Bool) (a : Int64) : Int64 := if negative then -a else a

variable {a b : Int64} {base : Nat}

/-- What fits is found again. -/
private theorem checked?_eq_some {n : Int} : checked? n = some a ↔ a.toInt = n := by
  rw [checked?]
  split_ifs with h
  · rw [Option.some_inj, ← Int64.toInt_inj, Int64.toInt_ofIntLE, eq_comm]
  · refine iff_of_false (fun hnone => nomatch hnone) ?_
    rintro rfl
    exact h ⟨a.minValue_le_toInt, a.toInt_le⟩

/-- What is not beyond a number that fits does fit. -/
private theorem exists_toInt_eq {n : Int} (hzero : 0 ≤ n) (hle : n ≤ a.toInt) :
    ∃ b : Int64, b.toInt = n :=
  ⟨.ofIntLE n (Int.le_trans (by decide) hzero) (Int.le_trans hle a.toInt_le), Int64.toInt_ofIntLE⟩

private theorem toInt_digit (d : Char) : (Int64.ofNat (digit d)).toInt = digit d := by
  refine Int64.toInt_ofNat_of_lt (Nat.lt_trans (m := 16) ?_ (by decide))
  rw [digit]
  cases hvalue : Hexadecimal.value? d with
  | none => decide
  | some value => exact Hexadecimal.value?_lt hvalue

private theorem Mark.toInt_base (mark : Mark) : (Int64.ofNat mark.base).toInt = mark.base := by
  cases mark <;> rfl

private theorem Suffix.toInt_factor (suffix : Suffix) :
    (Int64.ofNat suffix.factor).toInt = suffix.factor := by
  cases suffix <;> rfl

/-- One digit more: the product in between is not beyond the result. -/
private theorem push?_eq_some (hbase : (Int64.ofNat base).toInt = base) (ha : 0 ≤ a.toInt) :
    push? base a d = some b ↔ b.toInt = a.toInt * base + digit d := by
  simp only [push?, mul?, add?, Option.bind_eq_bind, Option.bind_eq_some_iff, checked?_eq_some,
    hbase, toInt_digit]
  constructor
  · rintro ⟨shifted, hshifted, hb⟩
    rw [hb, hshifted]
  · intro hb
    have hzero : 0 ≤ a.toInt * base := Int.mul_nonneg ha (Int.natCast_nonneg _)
    obtain ⟨shifted, hshifted⟩ := exists_toInt_eq (a := b) hzero (by omega)
    exact ⟨shifted, hshifted, by rw [hb, hshifted]⟩

/-- The digits before the last one write a number that is not beyond that of all of them, so the
computation does not give up at one of them if all fit. -/
private theorem digits?_eq_some (hbase : (Int64.ofNat base).toInt = base) (hpos : 0 < base) :
    digits? base ds = some a ↔ a.toInt = Token.digitsValue base ds := by
  induction ds using List.reverseRecOn generalizing a with
  | nil =>
    rw [digits?, List.foldlM_nil, Option.pure_def, Option.some_inj, ← Int64.toInt_inj, eq_comm]
    rfl
  | append_singleton ds d ih =>
    have hstep {b : Int64} (hb : b.toInt = Token.digitsValue base ds) :
        push? base b d = some a ↔ a.toInt = Token.digitsValue base (ds ++ [d]) := by
      rw [push?_eq_some hbase (hb ▸ Int.natCast_nonneg _), hb, digitsValue_concat]
      push_cast
      rfl
    simp only [digits?, List.foldlM_append, List.foldlM_cons, List.foldlM_nil, Option.bind_eq_bind,
      Option.pure_def, Option.bind_fun_some, Option.bind_eq_some_iff] at ih ⊢
    constructor
    · rintro ⟨b, hb, ha⟩
      exact (hstep (ih.mp hb)).mp ha
    · intro ha
      have hle : Token.digitsValue base ds ≤ Token.digitsValue base (ds ++ [d]) := by
        rw [digitsValue_concat]
        exact Nat.le_trans (Nat.le_mul_of_pos_right _ hpos) (Nat.le_add_right _ _)
      obtain ⟨b, hb⟩ := exists_toInt_eq (a := a) (Int.natCast_nonneg (Token.digitsValue base ds))
        (ha ▸ Int.ofNat_le.mpr hle)
      exact ⟨b, ih.mpr hb, (hstep hb).mpr ha⟩

/-- **Machine arithmetic.** The value is computed digit by digit exactly if it fits. -/
theorem magnitude?_eq_some {n : Numeral} : n.magnitude? = some a ↔ a.toInt = n.value := by
  have hbase : 0 < n.mark.base := Nat.lt_of_lt_of_le (by decide) n.mark.ten_le_base
  simp only [magnitude?, mul?, Option.bind_eq_bind, Option.bind_eq_some_iff, checked?_eq_some,
    digits?_eq_some n.mark.toInt_base hbase, n.suffix.toInt_factor]
  rw [value, number, ← digitsValue_eq_ofDigits]
  push_cast
  constructor
  · rintro ⟨b, hb, ha⟩
    rw [ha, hb]
  · intro ha
    have hle : (Token.digitsValue n.mark.base n.digits : Int) ≤ a.toInt := by
      rw [ha]
      exact_mod_cast Nat.le_mul_of_pos_right _ n.suffix.factor_pos
    obtain ⟨b, hb⟩ := exists_toInt_eq (Int.natCast_nonneg _) hle
    exact ⟨b, hb, by rw [ha, hb]⟩

/-- The computation gives up exactly if the value is beyond the largest one. -/
theorem magnitude?_eq_none {n : Numeral} : n.magnitude? = none ↔ Token.integerMax < n.value := by
  have hmax : (Token.integerMax : Int) = Int64.maxValue.toInt := rfl
  rw [Option.eq_none_iff_forall_ne_some]
  constructor
  · intro hnone
    by_contra hle
    have hle' : (n.value : Int) ≤ Int64.maxValue.toInt := by omega
    obtain ⟨a, ha⟩ := exists_toInt_eq (Int.natCast_nonneg _) hle'
    exact hnone a (magnitude?_eq_some.mpr ha)
  · intro hlt a ha
    have hfits := a.toInt_le
    rw [magnitude?_eq_some.mp ha] at hfits
    omega

/-- The reader finds the value that is computed in sixty-four bits. -/
theorem integerValue?_eq_map_magnitude? (n : Numeral) :
    Token.integerValue? n.mark.base n.suffix.factor n.digits =
      n.magnitude?.map fun a => a.toInt.toNat := by
  rw [integerValue?_eq]
  split_ifs with hmax
  · rw [magnitude?_eq_none.mpr hmax, Option.map_none]
  · obtain ⟨a, ha⟩ := Option.ne_none_iff_exists'.mp fun hnone => hmax (magnitude?_eq_none.mp hnone)
    rw [ha, Option.map_some, magnitude?_eq_some.mp ha, Int.toNat_natCast]

/-- The opposite of a number that is not below zero fits. -/
theorem toInt_signed (negative : Bool) (ha : 0 ≤ a.toInt) :
    (signed negative a).toInt = signFactor negative * a.toInt := by
  cases negative with
  | false => exact (Int.one_mul _).symm
  | true =>
    have hfits := a.toInt_lt
    rw [signed, if_pos rfl, Int64.toInt_neg, signFactor, if_pos rfl, Int.neg_one_mul]
    exact Int.bmod_eq_of_le (by omega) (by omega)

end Numeral

/-! ### The reader -/

namespace Token

open Numeral (Mark Suffix signText signFactor)

variable {negative : Bool} {cs digits next after : List Char}

/-- The mark, if there is one, and the digits behind it. -/
private theorem exists_mark (cs : List Char) :
    ∃ (mark : Mark) (rest : List Char), cs = mark.text ++ rest ∧
      integerDigits cs = (mark.base, mark.text.length, rest.takeWhile mark.isDigit) := by
  rw [integerDigits.eq_def]
  split
  · exact ⟨.lower, _, rfl, rfl⟩
  · exact ⟨.upper, _, rfl, rfl⟩
  · exact ⟨.decimal, cs, rfl, rfl⟩

/-- The suffix, if there is one, and what is behind it. -/
private theorem exists_suffix (cs : List Char) :
    ∃ (suffix : Suffix) (after : List Char), cs = suffix.text ++ after ∧
      integerSuffix cs = (suffix.factor, suffix.text.length) := by
  rw [integerSuffix.eq_def]
  split
  · exact ⟨.kilobytes, _, rfl, rfl⟩
  · exact ⟨.megabytes, _, rfl, rfl⟩
  · exact ⟨.one, cs, rfl, rfl⟩

/-- Digits of base ten are no mark of another base, nor are they with what follows them. -/
private theorem hexMarked_append_of_isDigit (hdigits : ∀ d ∈ digits, d.isDigit = true)
    (hne : digits ≠ [])
    (hmark : next.head?.any (fun c => c == 'x' || c == 'X') = false) :
    hexMarked (digits ++ next) = false := by
  obtain ⟨d, digits, rfl⟩ := List.exists_cons_of_ne_nil hne
  cases digits with
  | nil =>
    cases next with
    | nil => simp [hexMarked]
    | cons c next =>
      have hc : (c == 'x' || c == 'X') = false := hmark
      rw [List.singleton_append, hexMarked_cons_cons, hc, Bool.and_false]
  | cons e digits =>
    have he : e.isDigit = true := hdigits e (List.mem_cons_of_mem _ List.mem_cons_self)
    have hx : e ≠ 'x' := by
      rintro rfl
      exact absurd he (by decide)
    have hX : e ≠ 'X' := by
      rintro rfl
      exact absurd he (by decide)
    simp [hexMarked_cons_cons, hx, hX]

/-- The digits of a numeral end with it, if neither another digit nor a mark follows. -/
private theorem integerDigits_append (n : Numeral)
    (hdigit : next.head?.any Hexadecimal.isDigit = false)
    (hmark : next.head?.any (fun c => c == 'x' || c == 'X') = false) :
    integerDigits (n.mark.text ++ (n.digits ++ next)) =
      (n.mark.base, n.mark.text.length, n.digits) := by
  have hstop : next.head?.any n.mark.isDigit = false := by
    cases hnext : next.head? with
    | none => rfl
    | some c =>
      rw [hnext, Option.any_some, Bool.eq_false_iff] at hdigit
      exact Bool.eq_false_iff.mpr fun hc => hdigit (Mark.isDigit_hexadecimal hc)
  have hrun := Text.takeWhile_append_of_stop n.isDigit hstop
  cases hbase : n.mark with
  | lower | upper =>
    rw [hbase] at hrun
    exact congrArg (fun digits => (16, 2, digits)) hrun
  | decimal =>
    have hdigits : ∀ d ∈ n.digits, d.isDigit = true := by
      have hall := n.isDigit
      rwa [hbase] at hall
    rw [hbase] at hrun
    rw [Mark.text, List.nil_append, integerDigits_eq,
      hexMarked_append_of_isDigit hdigits n.ne_nil hmark, if_neg Bool.false_ne_true]
    exact congrArg (fun digits => (10, 0, digits)) hrun

/-- A suffix ends where no character of a word follows it. -/
private theorem integerSuffix_append (suffix : Suffix)
    (hafter : after.head?.any isWordChar = false) :
    integerSuffix (suffix.text ++ after) = (suffix.factor, suffix.text.length) := by
  cases suffix with
  | one => exact integerSuffix_of_head? hafter
  | kilobytes => rfl
  | megabytes => rfl

/-- No character of a word follows digits, but for the first one of a suffix. -/
private theorem any_head?_suffix_append (suffix : Suffix)
    (hafter : after.head?.any isWordChar = false)
    {p : Char → Bool} (hp : ∀ c, p c = true → isWordChar c = true) (hK : p 'K' = false)
    (hM : p 'M' = false) : (suffix.text ++ after).head?.any p = false := by
  cases suffix with
  | one =>
    rw [Suffix.text, List.nil_append]
    cases hhead : after.head? with
    | none => rfl
    | some c =>
      rw [hhead, Option.any_some, Bool.eq_false_iff] at hafter
      exact Bool.eq_false_iff.mpr fun hc => hafter (hp c hc)
  | kilobytes => exact hK
  | megabytes => exact hM

/-- What the reader answers, once a mark, digits and a suffix have been found. -/
private theorem readInteger_eq {mark : Mark} {suffix : Suffix} (negative : Bool)
    (hdigits : integerDigits (mark.text ++ (digits ++ (suffix.text ++ after))) =
      (mark.base, mark.text.length, digits))
    (hsuffix : integerSuffix (suffix.text ++ after) = (suffix.factor, suffix.text.length)) :
    readInteger negative (mark.text ++ (digits ++ (suffix.text ++ after))) =
      if digits.isEmpty then
        .error (.invalidNumber "0x" .missingDigits, (signText negative).length)
      else if after.head?.any isWordChar then
        .error (.invalidNumber (String.ofList digits) .unexpectedCharacter,
          (signText negative).length)
      else
        match integerValue? mark.base suffix.factor digits with
        | none => .error (.invalidNumber (String.ofList digits) .overflow,
            (signText negative).length)
        | some magnitude => .ok (.integer (signFactor negative * magnitude),
            (signText negative).length + (mark.text ++ (digits ++ suffix.text)).length) := by
  have hdrop : (mark.text ++ (digits ++ (suffix.text ++ after))).drop
      (mark.text.length + digits.length) = suffix.text ++ after := by
    rw [← List.append_assoc, ← List.length_append, List.drop_left]
  have hwidth : (if negative then 1 else 0) = (signText negative).length := by
    cases negative <;> rfl
  have hsign (magnitude : Nat) :
      (if negative then -(magnitude : Int) else magnitude) = signFactor negative * magnitude := by
    cases negative
    · exact (Int.one_mul _).symm
    · exact (Int.neg_one_mul _).symm
  rw [readInteger, hdigits]
  dsimp only
  rw [hdrop, hsuffix]
  dsimp only
  rw [List.drop_left, hwidth]
  simp only [hsign, List.length_append, Nat.add_assoc]
  cases after <;> rfl

/-- **Numerals are read whole.** Where no character of a word follows a numeral, the answer is its
value with the sign, or an overflow. -/
theorem readInteger_text_append (negative : Bool) (n : Numeral)
    (hafter : after.head?.any isWordChar = false) :
    readInteger negative (n.text ++ after) =
      if integerMax < n.value then
        .error (.invalidNumber (String.ofList n.digits) .overflow, (signText negative).length)
      else .ok (.integer (signFactor negative * n.value),
        (signText negative).length + n.text.length) := by
  have hword : ∀ c, (c == 'x' || c == 'X') = true → isWordChar c = true := by
    intro c hc
    rcases Bool.or_eq_true_iff.mp hc with hx | hX
    · rw [beq_iff_eq.mp hx]
      rfl
    · rw [beq_iff_eq.mp hX]
      rfl
  have hmark := any_head?_suffix_append n.suffix hafter hword (by rfl) (by rfl)
  have hdigit := any_head?_suffix_append n.suffix hafter (fun _ => isWordChar_of_isDigit) (by rfl)
    (by rfl)
  have hempty : ¬n.digits.isEmpty = true := fun h => n.ne_nil (List.isEmpty_iff.mp h)
  have hread := readInteger_eq negative (integerDigits_append n hdigit hmark)
    (integerSuffix_append n.suffix hafter)
  rw [if_neg hempty, hafter, if_neg Bool.false_ne_true, Numeral.integerValue?_eq] at hread
  rw [Numeral.text, List.append_assoc, List.append_assoc, hread]
  split_ifs <;> rfl

/-- **Nothing else is an integer.** The characters begin with a numeral that no character of a word
follows, or they are malformed in another way than by an overflow. -/
theorem exists_numeral_or_malformed (negative : Bool) (cs : List Char) :
    (∃ (n : Numeral) (after : List Char), cs = n.text ++ after ∧
      after.head?.any isWordChar = false) ∨
    ∃ text reason, reason ≠ .overflow ∧
      readInteger negative cs =
        .error (.invalidNumber text reason, (signText negative).length) := by
  obtain ⟨mark, rest, rfl, hdigits⟩ := exists_mark cs
  obtain ⟨suffix, after, hrest, hsuffix⟩ := exists_suffix (rest.dropWhile mark.isDigit)
  have hsplit : rest = rest.takeWhile mark.isDigit ++ (suffix.text ++ after) := by
    rw [← hrest, List.takeWhile_append_dropWhile]
  have hmem : ∀ d ∈ rest.takeWhile mark.isDigit, mark.isDigit d = true :=
    fun _ => List.mem_takeWhile_imp
  generalize rest.takeWhile mark.isDigit = digits at hdigits hsplit hmem
  rw [hrest] at hsuffix
  subst hsplit
  have hread := readInteger_eq negative hdigits hsuffix
  cases hempty : digits.isEmpty with
  | true =>
    rw [hempty, if_pos rfl] at hread
    exact .inr ⟨_, _, by decide, hread⟩
  | false =>
    cases hafter : after.head?.any isWordChar with
    | true =>
      rw [hempty, hafter, if_neg Bool.false_ne_true, if_pos rfl] at hread
      exact .inr ⟨_, _, by decide, hread⟩
    | false =>
      have hne : digits ≠ [] := List.isEmpty_eq_false_iff.mp hempty
      exact .inl ⟨⟨mark, digits, suffix, hne, hmem⟩, after, by simp [Numeral.text], hafter⟩

end Token

end PackageScan
