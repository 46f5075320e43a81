import Mathlib.Data.String.Basic
import PackageScan.Dictionary

/-!
# Lookups in dictionaries

A dictionary is in strictly increasing order of its keys, and what has been put in last is what a
lookup finds. This is stated for one insertion and then for a list of them: the last pair of a key
stays (`Dictionary.find?_ofPairs`).
-/

namespace PackageScan

namespace Dictionary

variable {α : Type} {key k : String} {value : α} {d : Dictionary α}

@[simp] theorem find?_nil : find? ([] : Dictionary α) k = none := rfl

theorem find?_cons : find? ((key, value) :: d) k = if k = key then some value else d.find? k := by
  rw [find?, List.lookup_cons]
  split_ifs with h
  · rw [h, beq_self_eq_true]
  · rw [beq_eq_false_iff_ne.mpr h]
    rfl

/-- A key that occurs once is found with its value. -/
theorem find?_of_mem (hn : (d.map Prod.fst).Nodup) (h : (key, value) ∈ d) :
    d.find? key = some value := by
  obtain ⟨front, back, rfl⟩ := List.append_of_mem h
  refine List.lookup_eq_some_iff.mpr ⟨front, back, rfl, fun entry hentry => ?_⟩
  rw [List.map_append, List.nodup_append] at hn
  exact bne_iff_ne.mpr (hn.2.2 entry.1 (List.mem_map_of_mem hentry) key List.mem_cons_self).symm

/-- An insertion changes the value of its own key only. -/
theorem find?_insert :
    (insert key value d).find? k = if k = key then some value else d.find? k := by
  induction d with
  | nil => rw [insert, find?_cons]
  | cons entry rest ih =>
    obtain ⟨k', v⟩ := entry
    by_cases hk : k = key
    · rw [if_pos hk] at ih ⊢
      rw [insert]
      split_ifs with heq hlt
      · rw [find?_cons, if_pos hk]
      · rw [find?_cons, if_pos hk]
      · rw [find?_cons, if_neg (hk ▸ heq), ih]
    · rw [if_neg hk] at ih ⊢
      rw [insert]
      split_ifs with heq hlt
      · rw [find?_cons, if_neg hk, find?_cons, if_neg (heq ▸ hk)]
      · rw [find?_cons, if_neg hk]
      · rw [find?_cons, ih, find?_cons]

/-- What is found is there. -/
theorem mem_of_find? (h : d.find? key = some value) : (key, value) ∈ d := by
  obtain ⟨front, back, rfl, -⟩ := List.lookup_eq_some_iff.mp h
  exact List.mem_append_right _ List.mem_cons_self

/-- An insertion brings its own pair and no other. -/
theorem mem_of_mem_insert {pair : String × α} (h : pair ∈ insert key value d) :
    pair = (key, value) ∨ pair ∈ d := by
  induction d with
  | nil => exact .inl (List.mem_singleton.mp h)
  | cons entry rest ih =>
    rw [insert] at h
    split_ifs at h
    · exact (List.mem_cons.mp h).imp_right (List.mem_cons_of_mem _)
    · exact List.mem_cons.mp h
    · rcases List.mem_cons.mp h with rfl | h
      · exact .inr List.mem_cons_self
      · exact (ih h).imp_right (List.mem_cons_of_mem _)

theorem mem_keys_insert : k ∈ (insert key value d).map Prod.fst ↔ k = key ∨ k ∈ d.map Prod.fst := by
  induction d with
  | nil => simp [insert]
  | cons entry rest ih =>
    obtain ⟨k', v⟩ := entry
    rw [insert]
    split_ifs with heq hlt
    · rw [heq]
      simp
    · simp
    · rw [List.map_cons, List.mem_cons, ih, List.map_cons, List.mem_cons, or_left_comm]

/-- An insertion keeps the order of the keys. -/
theorem sorted_insert (h : (d.map Prod.fst).Pairwise (· < ·)) :
    ((insert key value d).map Prod.fst).Pairwise (· < ·) := by
  induction d with
  | nil => exact List.pairwise_singleton _ _
  | cons entry rest ih =>
    obtain ⟨k', v⟩ := entry
    rw [List.map_cons, List.pairwise_cons] at h
    rw [insert]
    split_ifs with heq hlt
    · rw [List.map_cons, List.pairwise_cons, heq]
      exact h
    · rw [List.map_cons, List.map_cons, List.pairwise_cons, List.pairwise_cons]
      refine ⟨fun k hk => ?_, h⟩
      rcases List.mem_cons.mp hk with rfl | hk
      · exact hlt
      · exact hlt.trans (h.1 k hk)
    · rw [List.map_cons, List.pairwise_cons]
      refine ⟨fun k hk => ?_, ih h.2⟩
      rcases mem_keys_insert.mp hk with rfl | hk
      · exact lt_of_le_of_ne (not_lt.mp hlt) (Ne.symm heq)
      · exact h.1 k hk

theorem find?_insertAll {pairs : List (String × α)} :
    (insertAll d pairs).find? k = (pairs.reverse.lookup k).or (d.find? k) := by
  induction pairs generalizing d with
  | nil => rfl
  | cons pair pairs ih =>
    have hlast : [pair].lookup k = if k = pair.1 then some pair.2 else none := find?_cons
    rw [insertAll, List.foldl_cons, ← insertAll, ih, find?_insert, List.reverse_cons,
      List.lookup_append, hlast, Option.or_assoc]
    split_ifs <;> rfl

theorem mem_of_mem_insertAll {pairs : List (String × α)} {pair : String × α}
    (h : pair ∈ insertAll d pairs) : pair ∈ d ∨ pair ∈ pairs := by
  induction pairs generalizing d with
  | nil => exact .inl h
  | cons first pairs ih =>
    rcases ih h with h | h
    · exact (mem_of_mem_insert h).elim (fun h => .inr (h ▸ List.mem_cons_self)) .inl
    · exact .inr (List.mem_cons_of_mem _ h)

theorem sorted_insertAll {pairs : List (String × α)} (h : (d.map Prod.fst).Pairwise (· < ·)) :
    ((insertAll d pairs).map Prod.fst).Pairwise (· < ·) := by
  induction pairs generalizing d with
  | nil => exact h
  | cons pair pairs ih => exact ih (sorted_insert h)

/-- **The last value of a key stays.** -/
theorem find?_ofPairs {pairs : List (String × α)} :
    (ofPairs pairs).find? k = pairs.reverse.lookup k := by
  rw [ofPairs, find?_insertAll, find?, List.lookup_nil, Option.or_none]

theorem sorted_ofPairs {pairs : List (String × α)} :
    ((ofPairs pairs).map Prod.fst).Pairwise (· < ·) :=
  sorted_insertAll List.Pairwise.nil

end Dictionary

end PackageScan
