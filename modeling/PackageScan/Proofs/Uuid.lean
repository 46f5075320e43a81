import Mathlib.Data.BitVec
import PackageScan.Proofs.Text.Digits
import PackageScan.Uuid

/-!
# Identifiers are read as they are written

The thirty-two digits of an identifier write its number (`Uuid.ofDigits?_digits`), and the hyphens
between their groups are where a reader expects them (`Uuid.ungroup?_groups`).
-/

namespace PackageScan

namespace Uuid

private theorem length_lowDigits (count n : Nat) : (lowDigits count n).length = count := by
  induction count generalizing n with
  | zero => rfl
  | succ count ih => rw [lowDigits, List.length_append, ih, List.length_singleton]

/-- Every digit is the one of a value below sixteen. -/
private theorem exists_of_mem_lowDigits {count n : Nat} {c : Char} (h : c ∈ lowDigits count n) :
    ∃ k < 16, c = Hexadecimal.lower k := by
  induction count generalizing n with
  | zero => exact nomatch h
  | succ count ih =>
    rcases List.mem_append.mp h with hfront | hlast
    · exact ih hfront
    · exact ⟨n % 16, Nat.mod_lt n (by decide), List.mem_singleton.mp hlast⟩

/-- The lowest digits write the number up to a power of sixteen. -/
private theorem foldlM_lowDigits (count n start : Nat) :
    (lowDigits count n).foldlM
        (fun n c => (Hexadecimal.value? c).map fun d => n * 16 + d) start =
      some (start * 16 ^ count + n % 16 ^ count) := by
  induction count generalizing n with
  | zero =>
    rw [Nat.pow_zero, Nat.mul_one, Nat.mod_one]
    rfl
  | succ count ih =>
    have hdigit : Hexadecimal.value? (Hexadecimal.lower (n % 16)) = some (n % 16) :=
      Hexadecimal.value?_lower (Nat.mod_lt n (by decide))
    have hsplit : n % 16 ^ (count + 1) = n / 16 % 16 ^ count * 16 + n % 16 := by
      rw [Nat.pow_succ, Nat.mul_comm, Nat.mod_mul]
      omega
    have hshift : start * 16 ^ (count + 1) = start * 16 ^ count * 16 := by
      rw [Nat.pow_succ, Nat.mul_assoc]
    rw [lowDigits, List.foldlM_append, ih]
    simp only [Option.bind_eq_bind, Option.bind_some, List.foldlM_cons, List.foldlM_nil, hdigit,
      Option.map_some, hsplit, hshift]
    congr 1
    omega

theorem ofDigits?_digits (u : Uuid) : ofDigits? u.digits = some u := by
  have hnumber : u.bits.toNat % 16 ^ 32 = u.bits.toNat := Nat.mod_eq_of_lt u.bits.isLt
  rw [ofDigits?, digits, if_pos (length_lowDigits 32 _), foldlM_lowDigits, hnumber, Nat.zero_mul,
    Nat.zero_add, Option.map_some, ofNat, BitVec.ofNat_toNat, BitVec.setWidth_eq]

/-- With a hyphen after the first group, the others follow. -/
private theorem intercalate_groups (n m : Nat) (ns : List Nat) (cs : List Char) :
    ['-'].intercalate (groups (n :: m :: ns) cs) =
      cs.take n ++ '-' :: ['-'].intercalate (groups (m :: ns) (cs.drop n)) := by
  rw [groups, groups, List.intercalate_cons_cons, List.append_assoc, List.singleton_append]

/-- There is a hyphen between any two groups. -/
private theorem length_intercalate_groups {n : Nat} {ns : List Nat} {cs : List Char}
    (h : cs.length = (n :: ns).sum) :
    (['-'].intercalate (groups (n :: ns) cs)).length = cs.length + ns.length := by
  induction ns generalizing n cs with
  | nil =>
    have hn : cs.length = n := h
    rw [groups, groups, List.intercalate_singleton, List.take_of_length_le (Nat.le_of_eq hn)]
    rfl
  | cons m ns ih =>
    rw [List.sum_cons] at h
    have hrest : (cs.drop n).length = (m :: ns).sum := by
      rw [List.length_drop]
      omega
    rw [intercalate_groups, List.length_append, List.length_cons, ih hrest, List.length_take,
      List.length_drop, List.length_cons]
    omega

/-- Groups with hyphens between them are put together again. -/
theorem ungroup?_groups {n : Nat} {ns : List Nat} {cs : List Char}
    (h : cs.length = (n :: ns).sum) :
    ungroup? (n :: ns) (['-'].intercalate (groups (n :: ns) cs)) = some cs := by
  induction ns generalizing n cs with
  | nil =>
    have hn : cs.length = n := h
    rw [groups, groups, List.intercalate_singleton, List.take_of_length_le (Nat.le_of_eq hn),
      ungroup?, if_pos hn]
  | cons m ns ih =>
    rw [List.sum_cons] at h
    have htake : (cs.take n).length = n := by
      rw [List.length_take]
      omega
    have hrest : (cs.drop n).length = (m :: ns).sum := by
      rw [List.length_drop]
      omega
    rw [intercalate_groups, ungroup?, List.drop_left' htake, List.take_left' htake]
    · change (ungroup? (m :: ns) _).map _ = _
      rw [ih hrest, Option.map_some, List.take_append_drop]
    · exact List.cons_ne_nil m ns

theorem toList_render (u : Uuid) :
    u.render.toList = ['-'].intercalate (groups groupLengths u.digits) := by
  have hhyphen : "-".toList = ['-'] := by decide
  rw [render, String.toList_intercalate, List.map_map, hhyphen]
  simp only [Function.comp_def, String.toList_ofList, List.map_id']

/-- The written form begins with a digit. -/
private theorem exists_render_eq (u : Uuid) :
    ∃ k < 16, ∃ rest, u.render.toList = Hexadecimal.lower k :: rest := by
  have hlength : u.digits.length = 32 := length_lowDigits 32 _
  obtain ⟨d, ds, hdigits⟩ : ∃ d ds, u.digits = d :: ds :=
    List.exists_cons_of_length_pos (by omega)
  have hmem : d ∈ lowDigits 32 u.bits.toNat := by
    rw [← digits, hdigits]
    exact List.mem_cons_self
  obtain ⟨k, hk, rfl⟩ := exists_of_mem_lowDigits hmem
  refine ⟨k, hk, ds.take 7 ++ '-' :: ['-'].intercalate (groups [4, 4, 4, 12] (ds.drop 7)), ?_⟩
  rw [toList_render, hdigits, groupLengths, intercalate_groups]
  rfl

/-- **Identifiers are read as they are written.** -/
theorem parse?_render (u : Uuid) : parse? u.render = some u := by
  have hdigits : u.digits.length = groupLengths.sum := length_lowDigits 32 _
  have hread : ofHyphenated? u.render.toList = some u := by
    rw [ofHyphenated?, toList_render, groupLengths, ungroup?_groups hdigits, Option.bind_some,
      ofDigits?_digits]
  have hlength : u.render.toList.length ≠ 32 := by
    rw [toList_render, groupLengths, length_intercalate_groups hdigits, hdigits]
    decide
  -- no digit is a brace or the first letter of a name
  obtain ⟨k, hk, rest, hrest⟩ := exists_render_eq u
  have hhead : ∀ k < 16, Hexadecimal.lower k ≠ '\x7b' ∧ Hexadecimal.lower k ≠ 'u' := by decide
  rw [hrest] at hread hlength
  rw [parse?, hrest]
  split
  · exact absurd (List.cons.inj ‹_›).1 (hhead k hk).1
  · exact absurd (List.cons.inj ‹_›).1 (hhead k hk).2
  · rw [if_neg hlength, hread]

end Uuid

end PackageScan
