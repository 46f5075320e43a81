import PackageScan.Proofs.Text.Digits
import PackageScan.Time.Timestamp

/-!
# Points in time are read as they are written

Every number of a written point in time has a width, and is read back within that width
(`Timestamp.number?_padded`); the year has one too, or else a sign before it. So each component is
read as it was written, and a proper point in time as a whole (`Timestamp.parse?_render`). Nothing
but proper points in time is ever read (`Timestamp.isProper_of_parse?`).
-/

namespace PackageScan

namespace Timestamp

open Decimal

/-- The point in time is one of the calendar and of the day. -/
structure IsProper (t : Timestamp) : Prop where
  date : t.date.isValid = true
  hour : t.hour < 24
  minute : t.minute < 60
  second : t.second ≤ 60
  nano : t.nano < 10 ^ 9

variable {c : Char} {cs rest : List Char} {width n : Nat}

/-! ### Numbers of a width -/

/-- The digits of a number with zeros in front up to the given width. -/
def paddedDigits (width n : Nat) : List Char :=
  List.replicate (width - (Nat.toDigits 10 n).length) '0' ++ Nat.toDigits 10 n

private theorem toList_padded (width n : Nat) : (padded width n).toList = paddedDigits width n := by
  rw [padded, String.toList_append, Text.toList_pushn, Nat.repr_eq_ofList_toDigits,
    String.toList_ofList, String.toList_ofList, String.length_ofList]
  rfl

private theorem value_paddedDigits (width n : Nat) : value (paddedDigits width n) = n := by
  rw [paddedDigits, value_zeros_append, value_toDigits]

private theorem isDigit_of_mem_paddedDigits (h : c ∈ paddedDigits width n) : c.isDigit = true := by
  rcases List.mem_append.mp h with hzero | hdigit
  · rw [List.eq_of_mem_replicate hzero]
    rfl
  · exact isDigit_of_mem_toDigits hdigit

private theorem length_paddedDigits (hwidth : 0 < width) (h : n < 10 ^ width) :
    (paddedDigits width n).length = width := by
  have hdigits : (Nat.toDigits 10 n).length ≤ width :=
    (Nat.length_toDigits_le_iff (by decide) hwidth).mpr h
  rw [paddedDigits, List.length_append, List.length_replicate]
  omega

/-- There is a digit in front. -/
private theorem exists_paddedDigits_eq (width n : Nat) :
    ∃ d ds, paddedDigits width n = d :: ds ∧ d.isDigit = true := by
  have hne : paddedDigits width n ≠ [] := by
    rw [paddedDigits]
    exact List.append_ne_nil_of_right_ne_nil _ Nat.toDigits_ne_nil
  obtain ⟨d, ds, hds⟩ := List.exists_cons_of_ne_nil hne
  exact ⟨d, ds, hds, isDigit_of_mem_paddedDigits (hds ▸ List.mem_cons_self)⟩

/-! ### Reading numbers -/

private theorem skipBlank_cons (h : Text.isBlank c = false) : skipBlank (c :: cs) = c :: cs :=
  List.dropWhile_cons_of_neg (by rw [h]; exact Bool.false_ne_true)

private theorem skipBlank_paddedDigits (width n : Nat) (rest : List Char) :
    skipBlank (paddedDigits width n ++ rest) = paddedDigits width n ++ rest := by
  obtain ⟨d, ds, hds, hd⟩ := exists_paddedDigits_eq width n
  rw [hds]
  exact skipBlank_cons (not_isBlank_of_isDigit hd)

private theorem takeWhile_paddedDigits (width n : Nat) (rest : List Char) :
    (paddedDigits width n ++ rest).takeWhile Char.isDigit =
      paddedDigits width n ++ rest.takeWhile Char.isDigit :=
  List.takeWhile_append_of_pos fun _ => isDigit_of_mem_paddedDigits

/-- As many digits as asked for are taken, whatever follows. -/
private theorem takeWhile_take_paddedDigits (hwidth : 0 < width) (h : n < 10 ^ width)
    (rest : List Char) :
    ((paddedDigits width n ++ rest).take width).takeWhile Char.isDigit = paddedDigits width n := by
  rw [List.take_left' (length_paddedDigits hwidth h), List.takeWhile_eq_self_iff]
  exact fun _ => isDigit_of_mem_paddedDigits

/-- A number of the width is read as it was written, whatever follows. -/
theorem number?_padded (hwidth : 0 < width) (h : n < 10 ^ width) (rest : List Char) :
    number? width ((padded width n).toList ++ rest) = some (n, rest) := by
  have hdigits := takeWhile_take_paddedDigits hwidth h rest
  obtain ⟨d, ds, hds, -⟩ := exists_paddedDigits_eq width n
  rw [toList_padded, number?, skipBlank_paddedDigits]
  split
  · rename_i hnone
    rw [hdigits, hds] at hnone
    exact nomatch hnone
  · rw [hdigits, value_paddedDigits, List.drop_left]

private theorem mark?_cons (h : Text.isBlank c = false) : mark? c (c :: rest) = some rest := by
  rw [mark?, skipBlank_cons h]
  exact if_pos rfl

/-- Four digits are a year, whatever follows. -/
private theorem year?_padded (h : n < 10 ^ 4) (rest : List Char) :
    year? ((padded 4 n).toList ++ rest) = some ((n : Int), rest) := by
  obtain ⟨d, ds, hds, hd⟩ := exists_paddedDigits_eq 4 n
  have hplain : ¬(d = '-' || d = '+') = true := by
    intro hsign
    rcases Bool.or_eq_true_iff.mp hsign with hminus | hplus
    · exact absurd hd (by rw [of_decide_eq_true hminus]; decide)
    · exact absurd hd (by rw [of_decide_eq_true hplus]; decide)
  have hnumber := number?_padded (by decide) h rest
  rw [year?]
  rw [toList_padded] at hnumber ⊢
  rw [skipBlank_paddedDigits]
  rw [hds, List.cons_append] at hnumber ⊢
  dsimp only
  rw [if_neg hplain, hnumber, Option.map_some]

/-- After a sign all digits belong to the year. -/
private theorem year?_signed (n : Nat) (rest : List Char) (hsign : (c = '-' || c = '+') = true)
    (hblank : Text.isBlank c = false) :
    year? (c :: (paddedDigits 4 n ++ '-' :: rest)) =
      some (if c = '-' then -(n : Int) else n, '-' :: rest) := by
  have hdigits : (paddedDigits 4 n ++ '-' :: rest).takeWhile Char.isDigit = paddedDigits 4 n := by
    rw [takeWhile_paddedDigits, List.takeWhile_cons_of_neg (by decide), List.append_nil]
  obtain ⟨d, ds, hds, -⟩ := exists_paddedDigits_eq 4 n
  rw [year?, skipBlank_cons hblank]
  dsimp only
  rw [if_pos hsign]
  split
  · rename_i hnone
    rw [hdigits, hds] at hnone
    exact nomatch hnone
  · rw [hdigits, value_paddedDigits, List.drop_left]

/-- A year is read as it was written, up to the dash that follows. -/
private theorem year?_renderYear (year : Int) (rest : List Char) :
    year? ((renderYear year).toList ++ '-' :: rest) = some (year, '-' :: rest) := by
  rw [renderYear]
  by_cases h : 0 ≤ year ∧ year ≤ 9999
  · rw [if_pos h, year?_padded (by omega), Int.toNat_of_nonneg h.1]
  · rw [if_neg h, String.toList_append, toList_padded]
    by_cases hneg : year < 0
    · rw [if_pos hneg]
      refine (year?_signed year.natAbs rest (c := '-') (by decide) (by decide)).trans ?_
      rw [if_pos rfl, Int.ofNat_natAbs_of_nonpos (by omega), Int.neg_neg]
    · rw [if_neg hneg]
      refine (year?_signed year.natAbs rest (c := '+') (by decide) (by decide)).trans ?_
      rw [if_neg (by decide), Int.natAbs_of_nonneg (by omega)]

/-! ### Reading the fraction -/

private theorem fraction?_paddedDigits (hwidth : 0 < width) (hle : width ≤ 9) (h : n < 10 ^ width) :
    fraction? ('.' :: (paddedDigits width n ++ ['Z'])) =
      some (n * Nat.pow 10 (9 - width), ['Z']) := by
  have hlength := length_paddedDigits hwidth h
  have hdigits : ((paddedDigits width n ++ ['Z']).take 9).takeWhile Char.isDigit =
      paddedDigits width n := by
    rw [List.take_append, List.take_of_length_le (by omega), takeWhile_paddedDigits, hlength]
    cases hleft : 9 - width with
    | zero => rw [List.take_zero, List.takeWhile_nil, List.append_nil]
    | succ k => rw [List.take_succ_cons, List.takeWhile_cons_of_neg (by decide), List.append_nil]
  obtain ⟨d, ds, hds, -⟩ := exists_paddedDigits_eq width n
  rw [fraction?]
  split
  · rename_i hnone
    rw [hdigits, hds] at hnone
    exact nomatch hnone
  · rw [hdigits, value_paddedDigits, hlength, List.drop_left' hlength]
    rfl

private theorem fraction?_renderFraction {nano : Nat} (h : nano < 10 ^ 9) :
    fraction? ((renderFraction nano).toList ++ ['Z']) = some (nano, ['Z']) := by
  have hpoint : ".".toList = ['.'] := by decide
  rw [renderFraction]
  split_ifs with hzero hmillion hthousand
  · rw [hzero]
    rfl
  · rw [String.toList_append, toList_padded, hpoint]
    refine (fraction?_paddedDigits (by decide) (by decide) (by omega)).trans ?_
    rw [show nano / 1000000 * Nat.pow 10 (9 - 3) = nano from Nat.div_mul_cancel
      (Nat.dvd_of_mod_eq_zero hmillion)]
  · rw [String.toList_append, toList_padded, hpoint]
    refine (fraction?_paddedDigits (by decide) (by decide) (by omega)).trans ?_
    rw [show nano / 1000 * Nat.pow 10 (9 - 6) = nano from Nat.div_mul_cancel
      (Nat.dvd_of_mod_eq_zero hthousand)]
  · rw [String.toList_append, toList_padded, hpoint]
    refine (fraction?_paddedDigits (by decide) (by decide) h).trans ?_
    rw [show nano * Nat.pow 10 (9 - 9) = nano from Nat.mul_one nano]

/-! ### Reading a point in time -/

theorem toList_render (t : Timestamp) :
    t.render.toList = (renderYear t.date.year).toList ++ '-' ::
      ((padded 2 t.date.month).toList ++ '-' :: ((padded 2 t.date.day).toList ++ 'T' ::
        ((padded 2 t.hour).toList ++ ':' :: ((padded 2 t.minute).toList ++ ':' ::
          ((padded 2 t.second).toList ++ ((renderFraction t.nano).toList ++ ['Z'])))))) := by
  simp [render, toString]

/-- At no offset the time stays what it is. -/
private theorem IsProper.atOffset?_zero {t : Timestamp} (h : t.IsProper) :
    t.atOffset? 0 = some t := by
  have hhour := h.hour
  have hminute := h.minute
  have hlow : ¬(t.hour * 60 + t.minute - 0 : Int) < 0 := by omega
  have hhigh : ¬(1440 : Int) ≤ t.hour * 60 + t.minute - 0 := by omega
  rw [atOffset?, if_neg hlow, if_neg hhigh, if_pos h.date]
  have hofDay : ((t.hour * 60 + t.minute - 0 : Int) % 1440).toNat = t.hour * 60 + t.minute := by
    omega
  rw [hofDay, show (t.hour * 60 + t.minute) / 60 = t.hour by omega,
    show (t.hour * 60 + t.minute) % 60 = t.minute by omega]

private theorem offset?_utc : offset? (skipBlank ['Z']) = some (0, []) := by decide +kernel

/-- A number of two digits is read as it was written, whatever follows. -/
private theorem number?_two (h : n < 100) (rest : List Char) :
    number? 2 ((padded 2 n).toList ++ rest) = some (n, rest) :=
  number?_padded (by decide) h rest

/-- A date is read as it is written, up to whatever follows. -/
private theorem date?_render {d : Date} (h : d.isValid = true) (rest : List Char) :
    date? ((renderYear d.year).toList ++ '-' :: ((padded 2 d.month).toList ++ '-' ::
      ((padded 2 d.day).toList ++ rest))) = some (d, rest) := by
  have hvalid := h
  simp only [Date.isValid, Bool.and_eq_true, decide_eq_true_eq] at hvalid
  obtain ⟨⟨⟨⟨⟨-, -⟩, -⟩, hmonth⟩, -⟩, hday⟩ := hvalid
  have hdays : Date.daysIn d.year d.month ≤ 31 := by
    rw [Date.daysIn]
    split_ifs <;> decide
  -- each component stands before the mark that the reader expects after it
  refine Option.bind_eq_some_iff.mpr ⟨_, year?_renderYear _ _, ?_⟩
  refine Option.bind_eq_some_iff.mpr ⟨_, mark?_cons (by decide), ?_⟩
  refine Option.bind_eq_some_iff.mpr ⟨_, number?_two (by omega) _, ?_⟩
  refine Option.bind_eq_some_iff.mpr ⟨_, mark?_cons (by decide), ?_⟩
  exact Option.bind_eq_some_iff.mpr ⟨_, number?_two (by omega) _, rfl⟩

private theorem timeMark?_cons (rest : List Char) : timeMark? ('T' :: rest) = some rest := rfl

/-- A time of day is read as it is written, up to the letter of universal time. -/
private theorem IsProper.timeOf?_render {t : Timestamp} (h : t.IsProper) :
    timeOf? t.date ((padded 2 t.hour).toList ++ ':' :: ((padded 2 t.minute).toList ++ ':' ::
      ((padded 2 t.second).toList ++ ((renderFraction t.nano).toList ++ ['Z'])))) =
        some (t, ['Z']) := by
  have hhour : t.hour < 100 := h.hour.trans (by decide)
  have hminute : t.minute < 100 := h.minute.trans (by decide)
  have hsecond : t.second < 100 := h.second.trans_lt (by decide)
  rw [timeOf?]
  refine Option.bind_eq_some_iff.mpr ⟨_, number?_two hhour _, ?_⟩
  refine Option.bind_eq_some_iff.mpr ⟨_, mark?_cons (by decide), ?_⟩
  refine Option.bind_eq_some_iff.mpr ⟨_, number?_two hminute _, ?_⟩
  refine Option.bind_eq_some_iff.mpr ⟨_, mark?_cons (by decide), ?_⟩
  refine Option.bind_eq_some_iff.mpr ⟨_, number?_two hsecond _, ?_⟩
  exact Option.bind_eq_some_iff.mpr ⟨_, fraction?_renderFraction h.nano, rfl⟩

/-- **Proper points in time are read as they are written.** -/
theorem parse?_render {t : Timestamp} (h : t.IsProper) : parse? t.render = some t := by
  have hguard : ((skipBlank []).isEmpty && t.date.isValid && decide (t.hour < 24) &&
      decide (t.minute < 60) && decide (t.second ≤ 60)) = true := by
    simp [skipBlank, h.date, h.hour, h.minute, h.second]
  rw [parse?, toList_render]
  refine Option.bind_eq_some_iff.mpr ⟨_, date?_render h.date _, ?_⟩
  refine Option.bind_eq_some_iff.mpr ⟨_, timeMark?_cons _, ?_⟩
  refine Option.bind_eq_some_iff.mpr ⟨_, h.timeOf?_render, ?_⟩
  refine Option.bind_eq_some_iff.mpr ⟨_, offset?_utc, ?_⟩
  exact (if_pos hguard).trans h.atOffset?_zero

/-! ### What is read -/

/-- At whatever offset, a time within the day is one of the calendar. -/
private theorem isProper_of_atOffset? {t u : Timestamp} {offset : Int}
    (h : t.atOffset? offset = some u)
    (hsecond : t.second ≤ 60) (hnano : t.nano < 10 ^ 9) : u.IsProper := by
  rw [atOffset?, Option.ite_none_right_eq_some] at h
  obtain ⟨hdate, hu⟩ := h
  obtain rfl := Option.some.inj hu
  refine ⟨hdate, ?_, ?_, hsecond, hnano⟩
  · dsimp only
    omega
  · exact Nat.mod_lt _ (by decide)

/-- Of a fraction only thousand millionths count. -/
private theorem fraction?_lt {read : Nat × List Char} (h : fraction? cs = some read) :
    read.1 < 10 ^ 9 := by
  rw [fraction?.eq_def] at h
  split at h
  · rename_i tail
    split at h
    · exact nomatch h
    · have hdigits : ∀ d ∈ (tail.take 9).takeWhile Char.isDigit, d.isDigit = true := fun d hd =>
        List.mem_takeWhile_imp hd
      have hlength : ((tail.take 9).takeWhile Char.isDigit).length ≤ 9 :=
        (List.takeWhile_sublist _).length_le.trans (List.length_take_le 9 tail)
      obtain rfl := Option.some.inj h
      calc value ((tail.take 9).takeWhile Char.isDigit) *
            10 ^ (9 - ((tail.take 9).takeWhile Char.isDigit).length)
          < 10 ^ ((tail.take 9).takeWhile Char.isDigit).length *
            10 ^ (9 - ((tail.take 9).takeWhile Char.isDigit).length) :=
            Nat.mul_lt_mul_of_pos_right (value_lt hdigits) (Nat.pow_pos (by decide))
        _ = 10 ^ 9 := by rw [← Nat.pow_add, Nat.add_sub_cancel' hlength]
  · obtain rfl := Option.some.inj h
    exact Nat.pow_pos (by decide)

private theorem timeOf?_nano_lt {date : Date} {read : Timestamp × List Char}
    (h : timeOf? date cs = some read) : read.1.nano < 10 ^ 9 := by
  rw [timeOf?] at h
  obtain ⟨_, -, h⟩ := Option.bind_eq_some_iff.mp h
  obtain ⟨_, -, h⟩ := Option.bind_eq_some_iff.mp h
  obtain ⟨_, -, h⟩ := Option.bind_eq_some_iff.mp h
  obtain ⟨_, -, h⟩ := Option.bind_eq_some_iff.mp h
  obtain ⟨_, -, h⟩ := Option.bind_eq_some_iff.mp h
  obtain ⟨nano, hnano, h⟩ := Option.bind_eq_some_iff.mp h
  obtain rfl := Option.some.inj h
  exact fraction?_lt hnano

/-- **Only proper points in time are read.** -/
theorem isProper_of_parse? {text : String} {t : Timestamp} (h : parse? text = some t) :
    t.IsProper := by
  rw [parse?] at h
  obtain ⟨_, -, h⟩ := Option.bind_eq_some_iff.mp h
  obtain ⟨_, -, h⟩ := Option.bind_eq_some_iff.mp h
  obtain ⟨written, hwritten, h⟩ := Option.bind_eq_some_iff.mp h
  obtain ⟨offset, -, h⟩ := Option.bind_eq_some_iff.mp h
  obtain ⟨hguard, htime⟩ := Option.ite_none_right_eq_some.mp h
  rw [Bool.and_eq_true, decide_eq_true_eq] at hguard
  exact isProper_of_atOffset? htime hguard.2 (timeOf?_nano_lt hwritten)

end Timestamp

end PackageScan
