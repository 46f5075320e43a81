import Mathlib.Data.List.Forall2
import PackageScan.Proofs.Dictionary
import PackageScan.Proofs.Ordered
import PackageScan.Json.Record

/-!
# Collections in JSON are read as they are written

A list is read item by item (`Json.list?_eq_some`). So it is read back if its items are
(`Json.list?_map`), and it can be read at all if each item can (`Json.isSome_list?`). A record is
found again by the names of its fields (`Json.record?_obj`). Sets of names and dictionaries of texts
can be read from just what is written for such collections.
-/

namespace PackageScan

namespace Json

variable {α β γ : Type} {write : α → Json} {read? : Json → Option α} {xs : List α} {j : Json}

/-! ### Lists -/

/-- A step over a list succeeds when it does on each entry. -/
theorem mapM_eq_some {f : β → Option γ} {bs : List β} {cs : List γ} :
    bs.mapM f = some cs ↔ List.Forall₂ (fun b c => f b = some c) bs cs := by
  induction bs generalizing cs with
  | nil =>
    rw [List.mapM_nil, List.forall₂_nil_left_iff]
    exact ⟨fun h => (Option.some.inj h).symm, fun h => by rw [h]; rfl⟩
  | cons b bs ih =>
    rw [List.mapM_cons, List.forall₂_cons_left_iff]
    constructor
    · intro h
      obtain ⟨c, hc, h⟩ := Option.bind_eq_some_iff.mp h
      obtain ⟨rest, hrest, h⟩ := Option.bind_eq_some_iff.mp h
      exact ⟨c, rest, hc, ih.mp hrest, (Option.some.inj h).symm⟩
    · rintro ⟨c, rest, hc, hrest, rfl⟩
      rw [hc, ih.mpr hrest]
      rfl

theorem list?_eq_some : list? read? j = some xs ↔
    ∃ items, j = .arr items ∧ List.Forall₂ (fun item x => read? item = some x) items xs := by
  cases j with
  | arr items => simp only [list?, mapM_eq_some, arr.injEq, exists_eq_left']
  | _ => simp [list?]

theorem list?_map (h : ∀ x ∈ xs, read? (write x) = some x) :
    list? read? (.arr (xs.map write)) = some xs :=
  list?_eq_some.mpr
    ⟨_, rfl, List.forall₂_map_left_iff.mpr (List.forall₂_same.mpr h)⟩

/-- What is in a list that has been read was read from an item. -/
theorem exists_of_list? (h : list? read? j = some xs) {x : α} (hx : x ∈ xs) :
    ∃ item, read? item = some x := by
  obtain ⟨items, -, hitems⟩ := list?_eq_some.mp h
  clear h
  induction hitems with
  | nil => exact nomatch hx
  | @cons item y _ _ hy _ ih =>
    rcases List.mem_cons.mp hx with rfl | hx
    · exact ⟨item, hy⟩
    · exact ih hx

/-- A list can be read if each item can. -/
theorem isSome_list? : (list? read? j).isSome = true ↔
    ∃ items, j = .arr items ∧ ∀ item ∈ items, (read? item).isSome = true := by
  rw [Option.isSome_iff_exists]
  constructor
  · rintro ⟨xs, h⟩
    obtain ⟨items, rfl, hitems⟩ := list?_eq_some.mp h
    refine ⟨items, rfl, ?_⟩
    clear h
    induction hitems with
    | nil => exact fun item hitem => nomatch hitem
    | cons hx _ ih => exact List.forall_mem_cons.mpr ⟨Option.isSome_of_eq_some hx, ih⟩
  · rintro ⟨items, rfl, hitems⟩
    simp only [list?_eq_some, arr.injEq, exists_eq_left']
    induction items with
    | nil => exact ⟨[], .nil⟩
    | cons item items ih =>
      obtain ⟨hitem, hitems⟩ := List.forall_mem_cons.mp hitems
      obtain ⟨x, hx⟩ := Option.isSome_iff_exists.mp hitem
      obtain ⟨xs, hxs⟩ := ih hitems
      exact ⟨x :: xs, .cons hx hxs⟩

/-! ### Records -/

/-- A record of different fields is read back from them. -/
theorem record?_obj {fields : List (String × Json)} (h : (fields.map Prod.fst).Nodup) :
    record? (fields.map Prod.fst) (.obj fields) = some (fields.map Prod.snd) := by
  refine mapM_eq_some.mpr (List.forall₂_map_left_iff.mpr (List.forall₂_map_right_iff.mpr ?_))
  exact List.forall₂_same.mpr fun entry hentry => Dictionary.find?_of_mem h hentry

/-! ### Numbers -/

theorem asNat64?_nat {n : Nat} (h : n < 2 ^ 64) : asNat64? (nat n) = some n := if_pos h

theorem lt_of_asNat64? {n : Nat} (h : j.asNat64? = some n) : n < 2 ^ 64 := by
  rw [asNat64?.eq_def] at h
  split at h
  · obtain ⟨hlt, hn⟩ := Option.ite_none_right_eq_some.mp h
    obtain rfl := Option.some.inj hn
    exact hlt
  · exact nomatch h

/-! ### Texts -/

theorem asStr?_eq_some {s : String} : j.asStr? = some s ↔ j = .str s := by
  cases j <;> simp [asStr?]

theorem nameSet?_strs {names : NameSet} (h : names.Pairwise (· < ·)) :
    (strs names).nameSet? = some names := by
  have hlist : list? asStr? (.arr (names.map str)) = some names := list?_map fun _ _ => rfl
  rw [nameSet?, strs, hlist, Option.map_some, NameSet.ofList_eq_self h]

theorem sorted_of_nameSet? {names : NameSet} (h : j.nameSet? = some names) :
    names.Pairwise (· < ·) := by
  obtain ⟨texts, -, rfl⟩ := Option.map_eq_some_iff.mp h
  exact NameSet.sorted_ofList

/-- A set of names can be read from lists of texts. -/
theorem isSome_nameSet? : j.nameSet?.isSome = true ↔ ∃ texts, j = strs texts := by
  rw [nameSet?, Option.isSome_map, Option.isSome_iff_exists]
  refine exists_congr fun texts => ?_
  have hitems (items : List Json) :
      List.Forall₂ (fun item s => item.asStr? = some s) items texts ↔ items = texts.map str := by
    simp only [asStr?_eq_some]
    rw [← List.forall₂_map_right_iff, List.forall₂_eq_eq_eq]
  simp only [list?_eq_some, hitems, exists_eq_right, strs]

theorem textDictionary?_eq_some {d : Dictionary String} :
    j.textDictionary? = some d ↔ j = ofTexts d := by
  cases j with
  | obj fields =>
    have hentry (entry : String × Json) (text : String × String) :
        (entry.2.asStr?.map fun s => (entry.1, s)) = some text ↔
          entry = (text.1, .str text.2) := by
      obtain ⟨key, value⟩ := entry
      obtain ⟨k, s⟩ := text
      simp only [Option.map_eq_some_iff, asStr?_eq_some, Prod.mk.injEq]
      constructor
      · rintro ⟨s, rfl, rfl, rfl⟩
        exact ⟨rfl, rfl⟩
      · rintro ⟨rfl, rfl⟩
        exact ⟨s, rfl, rfl, rfl⟩
    rw [textDictionary?, mapM_eq_some, ofTexts, obj.injEq]
    simp only [hentry]
    rw [← List.forall₂_map_right_iff (f := fun t : String × String => (t.1, Json.str t.2)),
      List.forall₂_eq_eq_eq]
  | _ => simp [textDictionary?, ofTexts]

end Json

end PackageScan
