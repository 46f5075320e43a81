import Mathlib.Data.List.Nodup
import Mathlib.Data.List.Perm.Basic
import PackageScan.Proofs.Rule.Checking
import PackageScan.RuleSet.Condition

/-!
# Resolving scoped conditions

Resolving a scoped condition (`Expr.Scoped`) cannot fail, and what comes out is tied to the names
it was resolved under:

* **Range**: the indices of patterns are those of the rule's own strings and the indices of rules
  are those that some name has (`Names.within_of_resolve`).
* **Sets**: the indices of a set of strings are, up to their order, those of the declared strings
  that the set selects (`Names.setIndices_perm`), so none is listed twice and a set of a scoped
  condition is not empty (`Names.exists_resolve_of_scoped`).
-/

namespace PackageScan

/-! ### Indices of a resolved condition -/

/-- A pattern that the operand refers to satisfies `P`. -/
def Operand.Within (P : Nat → Prop) : Operand → Prop
  | .count pattern => P pattern
  | .int _ | .filesize => True

/-- All patterns that the condition refers to satisfy `P`, and all rules satisfy `R`. -/
def Condition.Within (P R : Nat → Prop) : Condition → Prop
  | .bool _ => True
  | .found pattern => P pattern
  | .rule index => R index
  | .not operand => operand.Within P R
  | .and left right | .or left right => left.Within P R ∧ right.Within P R
  | .compare _ left right => left.Within P ∧ right.Within P
  | .ofSet _ patterns => ∀ p ∈ patterns, P p

/-- Every list of patterns in the condition has an entry and none twice. -/
def Condition.ProperSets : Condition → Prop
  | .bool _ | .found _ | .rule _ | .compare _ _ _ => True
  | .not operand => operand.ProperSets
  | .and left right | .or left right => left.ProperSets ∧ right.ProperSets
  | .ofSet _ patterns => patterns ≠ [] ∧ patterns.Nodup

theorem Operand.Within.imp {P P' : Nat → Prop} (hP : ∀ p, P p → P' p) {o : Operand}
    (h : o.Within P) : o.Within P' := by
  cases o with
  | count pattern => exact hP pattern h
  | int _ | filesize => trivial

theorem Condition.Within.imp {P P' R R' : Nat → Prop} (hP : ∀ p, P p → P' p)
    (hR : ∀ i, R i → R' i) {c : Condition} (h : c.Within P R) : c.Within P' R' := by
  induction c with
  | bool _ => trivial
  | found pattern => exact hP pattern h
  | rule index => exact hR index h
  | not operand ih => exact ih h
  | and left right ihl ihr | or left right ihl ihr => exact ⟨ihl h.1, ihr h.2⟩
  | compare _ left right => exact ⟨h.1.imp hP, h.2.imp hP⟩
  | ofSet _ patterns => exact fun p hp => hP p (h p hp)

namespace Names

variable {names : Names}

/-! ### Sets of strings -/

/-- The indices of the declared strings that a set selects, in the order of declaration. -/
def selected (names : Names) (set : StringSet) : List Nat :=
  (names.strings.filter fun s => set.selects s.1).map Prod.snd

/-- Adding to a list whatever is selected and not listed yet. -/
private def addFrom (item : SetItem) (listed : List Nat) (strings : List (String × Nat)) :
    List Nat :=
  strings.foldl (fun listed (name, index) =>
    if item.selects name && !listed.contains index then listed ++ [index] else listed) listed

private theorem mem_addFrom {item : SetItem} {listed : List Nat}
    {strings : List (String × Nat)} {i : Nat} :
    i ∈ addFrom item listed strings ↔
      i ∈ listed ∨ ∃ name, (name, i) ∈ strings ∧ item.selects name = true := by
  induction strings generalizing listed with
  | nil => simp [addFrom]
  | cons s strings ih =>
    obtain ⟨name, index⟩ := s
    -- an index that is not added for being listed is listed all the same
    have hstep : i ∈ (if item.selects name && !listed.contains index then listed ++ [index]
        else listed) ↔ i ∈ listed ∨ (i = index ∧ item.selects name = true) := by
      split_ifs with h
      · simp only [Bool.and_eq_true] at h
        simp [h.1]
      · simp only [Bool.and_eq_true, Bool.not_eq_true', List.contains_eq_mem,
          decide_eq_false_iff_not, not_and, not_not] at h
        exact ⟨Or.inl, fun h' => h'.elim id fun ⟨hi, hs⟩ => hi ▸ h hs⟩
    change i ∈ addFrom item _ strings ↔ _
    rw [ih, hstep, or_assoc]
    refine or_congr_right ?_
    constructor
    · rintro (⟨rfl, hs⟩ | ⟨n, hn, hs⟩)
      · exact ⟨name, List.mem_cons_self, hs⟩
      · exact ⟨n, List.mem_cons_of_mem _ hn, hs⟩
    · rintro ⟨n, hn, hs⟩
      rcases List.mem_cons.mp hn with h | h
      · obtain ⟨rfl, rfl⟩ := Prod.mk.inj h
        exact Or.inl ⟨rfl, hs⟩
      · exact Or.inr ⟨n, h, hs⟩

private theorem nodup_addFrom {item : SetItem} {listed : List Nat}
    {strings : List (String × Nat)} (h : listed.Nodup) :
    (addFrom item listed strings).Nodup := by
  induction strings generalizing listed with
  | nil => exact h
  | cons s strings ih =>
    obtain ⟨name, index⟩ := s
    refine ih (?_ : (if item.selects name && !listed.contains index then listed ++ [index]
      else listed).Nodup)
    split_ifs with hc
    · simp only [Bool.and_eq_true, Bool.not_eq_true', List.contains_eq_mem,
        decide_eq_false_iff_not] at hc
      exact List.nodup_append.mpr ⟨h, List.nodup_singleton index, fun a ha b hb hab =>
        hc.2 (by rw [← List.mem_singleton.mp hb, ← hab]; exact ha)⟩
    · exact h

private theorem mem_foldl_addSelected {items : List SetItem} {listed : List Nat} {i : Nat} :
    i ∈ items.foldl names.addSelected listed ↔
      i ∈ listed ∨ ∃ name, (name, i) ∈ names.strings ∧
        (StringSet.items items).selects name = true := by
  induction items generalizing listed with
  | nil => simp [StringSet.selects]
  | cons item items ih =>
    rw [List.foldl_cons, ih, show names.addSelected listed item =
      addFrom item listed names.strings from rfl, mem_addFrom, or_assoc]
    refine or_congr_right ?_
    simp only [StringSet.selects, List.any_cons, Bool.or_eq_true]
    exact ⟨fun h => h.elim (fun ⟨n, hn, hs⟩ => ⟨n, hn, Or.inl hs⟩)
      fun ⟨n, hn, hs⟩ => ⟨n, hn, Or.inr hs⟩, fun ⟨n, hn, hs⟩ => hs.elim
      (fun hs => Or.inl ⟨n, hn, hs⟩) fun hs => Or.inr ⟨n, hn, hs⟩⟩

private theorem nodup_foldl_addSelected {items : List SetItem} {listed : List Nat}
    (h : listed.Nodup) : (items.foldl names.addSelected listed).Nodup := by
  induction items generalizing listed with
  | nil => exact h
  | cons item items ih => exact ih (nodup_addFrom h)

/-- The set holds the indices of the strings that it selects. -/
private theorem mem_setIndices {set : StringSet} {i : Nat} :
    i ∈ names.setIndices set ↔ i ∈ names.selected set := by
  cases set with
  | them => simp [setIndices, selected, StringSet.selects]
  | items items =>
    rw [setIndices, mem_foldl_addSelected]
    simp [selected]

/-- A set lists no index twice, if no two strings share one. -/
private theorem nodup_setIndices (hd : (names.strings.map Prod.snd).Nodup) (set : StringSet) :
    (names.setIndices set).Nodup := by
  cases set with
  | them => exact hd
  | items items => exact nodup_foldl_addSelected List.nodup_nil

/-- **Sets are what they select.** The indices of a set are those of the declared strings that
it selects, in some order: the order of the items, not of the declarations. -/
theorem setIndices_perm (hd : (names.strings.map Prod.snd).Nodup) (set : StringSet) :
    (names.setIndices set).Perm (names.selected set) :=
  (List.perm_ext_iff_of_nodup (nodup_setIndices hd set)
    (hd.sublist (List.filter_sublist.map Prod.snd))).mpr fun _ => mem_setIndices

/-! ### Names of strings -/

/-- A declared name has an index, and a name with an index is declared with it. -/
theorem stringIndex_eq_ok {name : String} {e : Expr} {i : Nat} :
    names.stringIndex name e = .ok i ↔ names.strings.lookup name = some i := by
  rw [stringIndex]
  cases names.strings.lookup name <;> simp

private theorem exists_lookup {name : String} (h : name ∈ names.strings.map Prod.fst) :
    ∃ i, names.strings.lookup name = some i := by
  rw [← Option.isSome_iff_exists, List.lookup_isSome_iff]
  obtain ⟨s, hs, rfl⟩ := List.mem_map.mp h
  exact ⟨s, hs, beq_self_eq_true _⟩

private theorem mem_of_lookup {name : String} {i : Nat} (h : names.strings.lookup name = some i) :
    i ∈ names.strings.map Prod.snd := by
  obtain ⟨l₁, l₂, h, -⟩ := List.lookup_eq_some_iff.mp h
  rw [h]
  simp

/-! ### Conditions -/

/-- An operand resolves to one that refers to the rule's own strings. -/
private theorem operand_within {e : Expr} {o : Operand} (h : names.operand e = .ok o) :
    o.Within (· ∈ names.strings.map Prod.snd) := by
  cases e with
  | int value | filesize => cases h; trivial
  | count name span =>
    obtain ⟨i, hi, h⟩ := Outcome.bind_eq_ok.mp h
    cases h
    exact mem_of_lookup (stringIndex_eq_ok.mp hi)
  | _ => exact nomatch h

/-- **Range.** A resolved condition refers to the rule's own strings and to rules that have a
name. -/
theorem within_of_resolve {e : Expr} {c : Condition} (h : names.resolve e = .ok c) :
    c.Within (· ∈ names.strings.map Prod.snd) fun i => ∃ name, names.ruleIndex? name = some i := by
  induction e generalizing c with
  | bool value => cases h; trivial
  | found name span =>
    obtain ⟨i, hi, h⟩ := Outcome.bind_eq_ok.mp h
    cases h
    exact mem_of_lookup (stringIndex_eq_ok.mp hi)
  | rule name span =>
    rw [resolve] at h
    split at h
    · rename_i i hi
      cases h
      exact ⟨name, hi⟩
    · exact nomatch h
  | not operand ih =>
    obtain ⟨c', hc', h⟩ := Outcome.bind_eq_ok.mp h
    cases h
    have hw := ih hc'
    exact hw
  | and left right ihl ihr | or left right ihl ihr =>
    obtain ⟨l, hl, h⟩ := Outcome.bind_eq_ok.mp h
    obtain ⟨r, hr, h⟩ := Outcome.bind_eq_ok.mp h
    cases h
    exact ⟨ihl hl, ihr hr⟩
  | compare op left right span =>
    obtain ⟨l, hl, h⟩ := Outcome.bind_eq_ok.mp h
    obtain ⟨r, hr, h⟩ := Outcome.bind_eq_ok.mp h
    cases h
    exact ⟨operand_within hl, operand_within hr⟩
  | ofSet quantifier set span =>
    cases h
    intro p hp
    obtain ⟨s, hs, rfl⟩ := List.mem_map.mp (mem_setIndices.mp hp)
    exact List.mem_map_of_mem (List.mem_of_mem_filter hs)
  | int _ | filesize | count _ _ => exact nomatch h

/-- A scoped operand resolves. -/
private theorem exists_operand_of_scoped {e : Expr}
    (h : e.ScopedOperand (names.strings.map Prod.fst)) : ∃ o, names.operand e = .ok o := by
  cases e with
  | int value => exact ⟨.int value, rfl⟩
  | filesize => exact ⟨.filesize, rfl⟩
  | count name span =>
    obtain ⟨i, hi⟩ := exists_lookup h
    exact ⟨.count i, Outcome.bind_eq_ok.mpr ⟨i, stringIndex_eq_ok.mpr hi, rfl⟩⟩
  | _ => exact absurd h id

/-- **Scoped conditions resolve**, and all their sets are proper. -/
theorem exists_resolve_of_scoped (hd : (names.strings.map Prod.snd).Nodup) {e : Expr}
    (h : e.Scoped (names.strings.map Prod.fst) fun name => (names.ruleIndex? name).isSome) :
    ∃ c, names.resolve e = .ok c ∧ c.ProperSets := by
  induction e with
  | bool value => exact ⟨.bool value, rfl, trivial⟩
  | found name span =>
    obtain ⟨i, hi⟩ := exists_lookup h
    exact ⟨.found i, Outcome.bind_eq_ok.mpr ⟨i, stringIndex_eq_ok.mpr hi, rfl⟩, trivial⟩
  | rule name span =>
    obtain ⟨i, hi⟩ := Option.isSome_iff_exists.mp h
    exact ⟨.rule i, by rw [resolve, hi], trivial⟩
  | not operand ih =>
    obtain ⟨c, hc, hp⟩ := ih h
    exact ⟨.not c, Outcome.bind_eq_ok.mpr ⟨c, hc, rfl⟩, hp⟩
  | and left right ihl ihr =>
    obtain ⟨l, hl, hpl⟩ := ihl h.1
    obtain ⟨r, hr, hpr⟩ := ihr h.2
    exact ⟨.and l r, Outcome.bind_eq_ok.mpr ⟨l, hl, Outcome.bind_eq_ok.mpr ⟨r, hr, rfl⟩⟩,
      hpl, hpr⟩
  | or left right ihl ihr =>
    obtain ⟨l, hl, hpl⟩ := ihl h.1
    obtain ⟨r, hr, hpr⟩ := ihr h.2
    exact ⟨.or l r, Outcome.bind_eq_ok.mpr ⟨l, hl, Outcome.bind_eq_ok.mpr ⟨r, hr, rfl⟩⟩,
      hpl, hpr⟩
  | compare op left right span =>
    obtain ⟨l, hl⟩ := exists_operand_of_scoped h.1
    obtain ⟨r, hr⟩ := exists_operand_of_scoped h.2
    exact ⟨.compare op l r, Outcome.bind_eq_ok.mpr ⟨l, hl, Outcome.bind_eq_ok.mpr ⟨r, hr, rfl⟩⟩,
      trivial⟩
  | ofSet quantifier set span =>
    refine ⟨.ofSet quantifier (names.setIndices set), rfl, ?_, nodup_setIndices hd set⟩
    obtain ⟨name, hname, hs⟩ := h
    obtain ⟨s, hmem, rfl⟩ := List.mem_map.mp hname
    exact List.ne_nil_of_mem (mem_setIndices.mpr
      (List.mem_map_of_mem (List.mem_filter.mpr ⟨hmem, hs⟩)))
  | int _ | filesize | count _ _ => exact absurd h id

end Names

end PackageScan
