import Mathlib.Data.List.Sort
import Mathlib.Data.String.Basic
import PackageScan.Dictionary

/-!
# Sets as ordered lists

Sets of names and sets of identifiers are lists in strictly increasing order, made by one and the
same insertion (`InsertsInOrder`). What is known about it is stated here for any linear order: the
set that is made from a list has the members of the list and is in order, and a list that is in
order is its own set. Sets of names come first.
-/

namespace PackageScan

/-- The insertion leaves a list in which the element occurs already as it is, and puts the element
before the first larger one otherwise. -/
structure InsertsInOrder {α : Type} [LinearOrder α] (insert : α → List α → List α) : Prop where
  nil (a : α) : insert a [] = [a]
  cons (a b : α) (rest : List α) : insert a (b :: rest) =
    if a = b then b :: rest else if a < b then a :: b :: rest else b :: insert a rest

namespace InsertsInOrder

variable {α : Type} [LinearOrder α] {insert : α → List α → List α} {a b : α} {s : List α}

theorem mem_insert (h : InsertsInOrder insert) : b ∈ insert a s ↔ b = a ∨ b ∈ s := by
  induction s with
  | nil => rw [h.nil, List.mem_singleton, or_iff_left List.not_mem_nil]
  | cons c rest ih =>
    rw [h.cons]
    split_ifs with heq hlt
    · rw [heq, List.mem_cons, ← or_assoc, or_self]
    · rw [List.mem_cons]
    · rw [List.mem_cons, ih, List.mem_cons, or_left_comm]

theorem sorted_insert (h : InsertsInOrder insert) (hs : s.Pairwise (· < ·)) :
    (insert a s).Pairwise (· < ·) := by
  induction s with
  | nil =>
    rw [h.nil]
    exact List.pairwise_singleton _ _
  | cons c rest ih =>
    have hrest := List.pairwise_cons.mp hs
    rw [h.cons]
    split_ifs with heq hlt
    · exact hs
    · refine List.pairwise_cons.mpr ⟨fun b hb => ?_, hs⟩
      rcases List.mem_cons.mp hb with rfl | hb
      · exact hlt
      · exact hlt.trans (hrest.1 b hb)
    · refine List.pairwise_cons.mpr ⟨fun b hb => ?_, ih hrest.2⟩
      rcases h.mem_insert.mp hb with rfl | hb
      · exact lt_of_le_of_ne (not_lt.mp hlt) (Ne.symm heq)
      · exact hrest.1 b hb

/-- The elements of a list join those that are there. -/
theorem mem_foldl (h : InsertsInOrder insert) {l : List α} :
    b ∈ l.foldl (fun acc a => insert a acc) s ↔ b ∈ s ∨ b ∈ l := by
  induction l generalizing s with
  | nil => rw [List.foldl_nil, or_iff_left List.not_mem_nil]
  | cons a l ih => rw [List.foldl_cons, ih, h.mem_insert, List.mem_cons, or_assoc, or_left_comm]

theorem sorted_foldl (h : InsertsInOrder insert) {l : List α} (hs : s.Pairwise (· < ·)) :
    (l.foldl (fun acc a => insert a acc) s).Pairwise (· < ·) := by
  induction l generalizing s with
  | nil => exact hs
  | cons a l ih => exact ih (h.sorted_insert hs)

/-- A list in order is the set of its elements. -/
theorem foldl_eq_self (h : InsertsInOrder insert) {l : List α} (hl : l.Pairwise (· < ·)) :
    l.foldl (fun acc a => insert a acc) [] = l := by
  have hmade : (l.foldl (fun acc a => insert a acc) []).Pairwise (· < ·) :=
    h.sorted_foldl List.Pairwise.nil
  have hmem : ∀ b, b ∈ l.foldl (fun acc a => insert a acc) [] ↔ b ∈ l := fun b => by
    rw [h.mem_foldl, or_iff_right List.not_mem_nil]
  -- two lists in strict order that have the same elements are the same
  have hperm := (List.perm_ext_iff_of_nodup (hmade.imp ne_of_lt) (hl.imp ne_of_lt)).mpr hmem
  exact hperm.eq_of_pairwise (fun a b _ _ hab hba => absurd hab (lt_asymm hba)) hmade hl

end InsertsInOrder

/-! ### Sets of names -/

namespace NameSet

variable {name : String} {names : List String}

theorem insertsInOrder : InsertsInOrder NameSet.insert where
  nil _ := rfl
  cons _ _ _ := rfl

/-- **A set holds the names of the list.** -/
theorem mem_ofList : name ∈ ofList names ↔ name ∈ names := by
  rw [ofList, insertsInOrder.mem_foldl, or_iff_right List.not_mem_nil]

theorem sorted_ofList : (ofList names).Pairwise (· < ·) :=
  insertsInOrder.sorted_foldl List.Pairwise.nil

theorem ofList_eq_self (h : names.Pairwise (· < ·)) : ofList names = names :=
  insertsInOrder.foldl_eq_self h

end NameSet

end PackageScan
