import PackageScan.Proofs.Rule.Checking

/-!
# Well-formed rules

What a rule has to be like, without the order of the checks and without the walk over its
condition. The definitions below follow the description of the rule language and share nothing
with the checks except the syntax tree:

* **Parts and sorts**: `Expr.HasPart` is the relation of an expression to everything in it, and
  `Expr.HasSort` derives that it is a truth value or an integer.
* **References**: a part mentions an item of a set of strings (`Expr.Mentions`): `$x` and `#x` the
  string itself, a set each item that it lists. `them` mentions none and stands for all strings.
* **Rules**: `RuleDecl.IsWellFormed` lists what is asked of a rule, one field for each.

The checks accept just the well-formed rules (`Validation.checkRule_eq_ok_iff_isWellFormed`).
-/

namespace PackageScan

/-! ### Parts and sorts -/

/-- What an expression stands for. -/
inductive ExprSort where
  /-- It is true or false. -/
  | truth
  /-- It is a number. -/
  | integer
  deriving DecidableEq, Repr

namespace Expr

/-- `e.HasPart part`: the part occurs in the expression or is all of it. -/
inductive HasPart : Expr → Expr → Prop
  | self (e : Expr) : HasPart e e
  | not {operand part : Expr} : HasPart operand part → HasPart (.not operand) part
  | andLeft {left right part : Expr} : HasPart left part → HasPart (.and left right) part
  | andRight {left right part : Expr} : HasPart right part → HasPart (.and left right) part
  | orLeft {left right part : Expr} : HasPart left part → HasPart (.or left right) part
  | orRight {left right part : Expr} : HasPart right part → HasPart (.or left right) part
  | compareLeft {op : Comparison} {left right part : Expr} {span : Span} :
      HasPart left part → HasPart (.compare op left right span) part
  | compareRight {op : Comparison} {left right part : Expr} {span : Span} :
      HasPart right part → HasPart (.compare op left right span) part

/-- `e.HasSort sort`: connectives take truth values and comparisons take integers. -/
inductive HasSort : Expr → ExprSort → Prop
  | bool (value : Bool) : HasSort (.bool value) .truth
  | found (name : String) (span : Span) : HasSort (.found name span) .truth
  | rule (name : String) (span : Span) : HasSort (.rule name span) .truth
  | ofSet (quantifier : Quantifier) (set : StringSet) (span : Span) :
      HasSort (.ofSet quantifier set span) .truth
  | int (value : Int) : HasSort (.int value) .integer
  | filesize : HasSort .filesize .integer
  | count (name : String) (span : Span) : HasSort (.count name span) .integer
  | not {operand : Expr} : HasSort operand .truth → HasSort (.not operand) .truth
  | and {left right : Expr} : HasSort left .truth → HasSort right .truth →
      HasSort (.and left right) .truth
  | or {left right : Expr} : HasSort left .truth → HasSort right .truth →
      HasSort (.or left right) .truth
  | compare {left right : Expr} (op : Comparison) (span : Span) : HasSort left .integer →
      HasSort right .integer → HasSort (.compare op left right span) .truth

variable {e part : Expr}

/-- **The walk visits just the parts.** -/
theorem mem_subterms : part ∈ e.subterms ↔ e.HasPart part := by
  constructor
  · intro h
    induction e with
    | not operand ih =>
      rw [subterms_not, List.mem_cons] at h
      rcases h with rfl | h
      · exact .self _
      · exact .not (ih h)
    | and left right ihl ihr =>
      rw [subterms_and, List.mem_cons, List.mem_append] at h
      rcases h with rfl | h | h
      · exact .self _
      · exact .andLeft (ihl h)
      · exact .andRight (ihr h)
    | or left right ihl ihr =>
      rw [subterms_or, List.mem_cons, List.mem_append] at h
      rcases h with rfl | h | h
      · exact .self _
      · exact .orLeft (ihl h)
      · exact .orRight (ihr h)
    | compare op left right span ihl ihr =>
      rw [subterms_compare, List.mem_cons, List.mem_append] at h
      rcases h with rfl | h | h
      · exact .self _
      · exact .compareLeft (ihl h)
      · exact .compareRight (ihr h)
    | bool _ | found _ _ | count _ _ | int _ | filesize | rule _ _ | ofSet _ _ _ =>
      rw [List.mem_singleton.mp h]
      exact .self _
  · intro h
    induction h with
    | self e => exact self_mem_subterms e
    | not _ ih => exact List.mem_cons_of_mem _ ih
    | andLeft _ ih => simp [ih]
    | andRight _ ih => simp [ih]
    | orLeft _ ih => simp [ih]
    | orRight _ ih => simp [ih]
    | compareLeft _ ih => simp [ih]
    | compareRight _ ih => simp [ih]

private theorem hasSort_integer_iff : e.HasSort .integer ↔ e.isInteger = true := by
  constructor
  · rintro (_ | _ | _) <;> rfl
  · intro h
    cases e with
    | int value => exact .int value
    | filesize => exact .filesize
    | count name span => exact .count name span
    | _ => cases h

/-- **The check of types derives sorts.** -/
theorem hasSort_truth_iff : e.HasSort .truth ↔ e.WellTyped := by
  constructor
  · intro h
    induction e with
    | bool _ | found _ _ | rule _ _ | ofSet _ _ _ => trivial
    | not operand ih =>
      cases h with
      | not hoperand => exact ih hoperand
    | and left right ihl ihr =>
      cases h with
      | and hleft hright => exact ⟨ihl hleft, ihr hright⟩
    | or left right ihl ihr =>
      cases h with
      | or hleft hright => exact ⟨ihl hleft, ihr hright⟩
    | compare op left right span =>
      cases h with
      | compare _ _ hleft hright =>
        exact ⟨hasSort_integer_iff.mp hleft, hasSort_integer_iff.mp hright⟩
    | int _ | filesize | count _ _ => cases h
  · intro h
    induction e with
    | bool value => exact .bool value
    | found name span => exact .found name span
    | rule name span => exact .rule name span
    | ofSet quantifier set span => exact .ofSet quantifier set span
    | not operand ih => exact .not (ih h)
    | and left right ihl ihr => exact .and (ihl h.1) (ihr h.2)
    | or left right ihl ihr => exact .or (ihl h.1) (ihr h.2)
    | compare op left right span =>
      exact .compare op span (hasSort_integer_iff.mpr h.1) (hasSort_integer_iff.mpr h.2)
    | int _ | filesize | count _ _ => cases h

end Expr

/-! ### References -/

/-- `item.Covers string`: the item is the name of the string, or the beginning of its name. -/
def SetItem.Covers (item : SetItem) (string : String) : Prop :=
  match item with
  | .name n => string = n
  | .startingWith start => ∃ rest, string = start ++ rest

private theorem SetItem.covers_iff {item : SetItem} {string : String} :
    item.Covers string ↔ item.selects string = true := by
  cases item with
  | name n => rw [Covers, selects, beq_iff_eq, eq_comm]
  | startingWith start =>
    rw [Covers, selects, List.isPrefixOf_iff_prefix]
    constructor
    · rintro ⟨rest, rfl⟩
      exact ⟨rest.toList, String.toList_append.symm⟩
    · rintro ⟨rest, hrest⟩
      refine ⟨String.ofList rest, String.toList_inj.mp ?_⟩
      rw [String.toList_append, String.toList_ofList, hrest]

namespace Expr

/-- The expression itself, its parts apart, is `$x` or `#x` for the string that the item names, or
a set that lists the item. -/
def Mentions (item : SetItem) : Expr → Prop
  | .found name _ | .count name _ => item = .name name
  | .ofSet _ (.items items) _ => item ∈ items
  | _ => False

/-- Some part of the expression mentions the item. -/
def Lists (e : Expr) (item : SetItem) : Prop := ∃ part, e.HasPart part ∧ part.Mentions item

/-- Some part of the expression is a quantifier over `them`. -/
def UsesThem (e : Expr) : Prop := ∃ quantifier span, e.HasPart (.ofSet quantifier .them span)

/-- Some part of the expression is the name of a rule. -/
def UsesRule (e : Expr) (name : String) : Prop := ∃ span, e.HasPart (.rule name span)

/-- Some `$x`, `#x` or item of a set in the expression means the string. -/
def Selects (e : Expr) (string : String) : Prop := ∃ item, e.Lists item ∧ item.Covers string

/-- The expression is a condition for a rule with the given strings after the declared rules. -/
structure IsWellFormed (e : Expr) (strings : List String) (declared : RuleNames)
    (rejectUnreferenced : Bool) : Prop where
  /-- It is a truth value, and so are its parts apart from the sides of comparisons. -/
  hasSort : e.HasSort .truth
  /-- What it mentions means some string. -/
  covers : ∀ item, e.Lists item → ∃ string ∈ strings, item.Covers string
  /-- It speaks of all strings only if there are any. -/
  them : e.UsesThem → strings ≠ []
  /-- It names declared rules only. -/
  rules : ∀ name, e.UsesRule name → name ∈ declared
  /-- On request, it refers to every string: by `$x`, `#x` or an item, or to all by `them`. -/
  refersToAll : rejectUnreferenced = true →
    ∀ string ∈ strings, e.Selects string ∨ e.UsesThem

variable {e : Expr} {strings : List String} {declared : RuleNames}

/-- The walk finds nothing undeclared when items, `them` and rules are all in order. -/
private theorem known_iff :
    (∀ part ∈ e.subterms, part.Known strings fun name => declared.contains name = true) ↔
      (∀ item, e.Lists item → ∃ string ∈ strings, item.Covers string) ∧
        (e.UsesThem → strings ≠ []) ∧ ∀ name, e.UsesRule name → name ∈ declared := by
  constructor
  · intro h
    refine ⟨fun item ⟨part, hpart, hmentions⟩ => ?_, fun ⟨quantifier, span, hpart⟩ => ?_,
      fun name ⟨span, hpart⟩ => ?_⟩
    · have hknown := h part (mem_subterms.mpr hpart)
      cases part with
      | found name span | count name span =>
        obtain rfl : item = .name name := hmentions
        exact ⟨name, hknown, rfl⟩
      | ofSet quantifier set span =>
        cases set with
        | them => cases hmentions
        | items items =>
          obtain ⟨string, hstring, hselects⟩ := hknown item hmentions
          exact ⟨string, hstring, SetItem.covers_iff.mpr hselects⟩
      | _ => cases hmentions
    · exact h _ (mem_subterms.mpr hpart)
    · exact Std.HashSet.mem_iff_contains.mpr (h _ (mem_subterms.mpr hpart))
  · rintro ⟨hcovers, hthem, hrules⟩ part hpart
    rw [mem_subterms] at hpart
    cases part with
    | found name span | count name span =>
      obtain ⟨string, hstring, rfl⟩ := hcovers (.name name) ⟨_, hpart, rfl⟩
      exact hstring
    | rule name span => exact Std.HashSet.mem_iff_contains.mp (hrules name ⟨span, hpart⟩)
    | ofSet quantifier set span =>
      cases set with
      | them => exact hthem ⟨quantifier, span, hpart⟩
      | items items =>
        intro item hitem
        obtain ⟨string, hstring, hcovered⟩ := hcovers item ⟨_, hpart, hitem⟩
        exact ⟨string, hstring, SetItem.covers_iff.mp hcovered⟩
    | _ => trivial

/-- The walk refers to a string by an item that is mentioned, or by `them`. -/
private theorem exists_refersTo_iff {string : String} :
    (∃ part ∈ e.subterms, Validation.refersTo string part = true) ↔
      e.Selects string ∨ e.UsesThem := by
  constructor
  · rintro ⟨part, hpart, hrefers⟩
    rw [mem_subterms] at hpart
    cases part with
    | found name span | count name span =>
      exact .inl ⟨.name name, ⟨_, hpart, rfl⟩, (beq_iff_eq.mp hrefers).symm⟩
    | ofSet quantifier set span =>
      cases set with
      | them => exact .inr ⟨quantifier, span, hpart⟩
      | items items =>
        obtain ⟨item, hitem, hselects⟩ := List.any_eq_true.mp hrefers
        exact .inl ⟨item, ⟨_, hpart, hitem⟩, SetItem.covers_iff.mpr hselects⟩
    | _ => cases hrefers
  · rintro (⟨item, ⟨part, hpart, hmentions⟩, hcovers⟩ | ⟨quantifier, span, hpart⟩)
    · refine ⟨part, mem_subterms.mpr hpart, ?_⟩
      cases part with
      | found name span | count name span =>
        obtain rfl : item = .name name := hmentions
        exact beq_iff_eq.mpr hcovers.symm
      | ofSet quantifier set span =>
        cases set with
        | them => cases hmentions
        | items items =>
          exact List.any_eq_true.mpr ⟨item, hmentions, SetItem.covers_iff.mp hcovers⟩
      | _ => cases hmentions
    · exact ⟨_, mem_subterms.mpr hpart, rfl⟩

end Expr

/-! ### Rules -/

/-- There is nothing to look for: a hex string may hold white space. -/
def StringValue.IsEmpty : StringValue → Prop
  | .text bytes => bytes = []
  | .hex body => ∀ c ∈ body.toList, Text.isBlank c = true
  | .regex literal => literal.pattern = ""

/-- A hex string has no modifier, and a regular expression is neither wide nor a full word. -/
def StringDecl.ModifiersFit (decl : StringDecl) : Prop :=
  match decl.value with
  | .text _ => True
  | .hex _ => decl.modifiers = {}
  | .regex _ => decl.modifiers.wide = false ∧ decl.modifiers.fullword = false

/-- The rule may follow the declared ones. -/
structure RuleDecl.IsWellFormed (rule : RuleDecl) (declared : RuleNames)
    (rejectUnreferenced : Bool) : Prop where
  /-- Its name is new. -/
  isNew : rule.name ∉ declared
  /-- It does not have too many strings. -/
  length_strings : rule.strings.length ≤ Limits.stringsPerRule
  /-- No two of its strings have one name. -/
  nodup_strings : rule.stringNames.Nodup
  /-- Each of its strings has something to look for. -/
  not_isEmpty : ∀ decl ∈ rule.strings, ¬ decl.value.IsEmpty
  /-- Each of its strings has modifiers of its kind only. -/
  modifiersFit : ∀ decl ∈ rule.strings, decl.ModifiersFit
  /-- It has a condition over its strings. -/
  condition : ∃ e, rule.condition = some e ∧
    e.IsWellFormed rule.stringNames declared rejectUnreferenced

namespace Validation

private theorem isEmptyValue_eq_false {value : StringValue} :
    isEmptyValue value = false ↔ ¬ value.IsEmpty := by
  rw [← Bool.not_eq_true, not_iff_not]
  cases value with
  | text bytes => exact List.isEmpty_iff
  | hex body => exact List.all_eq_true
  | regex literal => exact String.isEmpty_iff

private theorem invalidModifier?_eq_none {decl : StringDecl} :
    invalidModifier? decl.value decl.modifiers = none ↔ decl.ModifiersFit := by
  obtain ⟨name, value, ⟨nocase, wide, ascii, fullword⟩, span⟩ := decl
  cases value with
  | text bytes => exact iff_of_true rfl trivial
  | hex body => simp [invalidModifier?, StringDecl.ModifiersFit]
  | regex literal => simp [invalidModifier?, StringDecl.ModifiersFit]

private theorem isUsable_iff {decl : StringDecl} :
    IsUsable decl ↔ ¬ decl.value.IsEmpty ∧ decl.ModifiersFit :=
  and_congr isEmptyValue_eq_false invalidModifier?_eq_none

/-- **The checks accept just the well-formed rules**, whatever rules are declared and whether or
not unreferenced strings are rejected. -/
theorem checkRule_eq_ok_iff_isWellFormed (rule : RuleDecl) (declared : RuleNames)
    (rejectUnreferenced : Bool) :
    checkRule rule declared rejectUnreferenced = .ok () ↔
      rule.IsWellFormed declared rejectUnreferenced := by
  have hnew : declared.contains rule.name = false ↔ rule.name ∉ declared := by
    rw [Std.HashSet.mem_iff_contains, Bool.not_eq_true]
  have hall (e : Expr) : RefersToAll rule e ↔
      ∀ string ∈ rule.stringNames, e.Selects string ∨ e.UsesThem := by
    rw [RefersToAll, RuleDecl.stringNames, List.forall_mem_map]
    exact forall₂_congr fun _ _ => Expr.exists_refersTo_iff
  rw [checkRule_eq_ok, hnew]
  constructor
  · rintro ⟨hfresh, hlength, ⟨hnodup, husable⟩, e, hcondition, htyped, hknown, hreferred⟩
    obtain ⟨hcovers, hthem, hrules⟩ := Expr.known_iff.mp hknown
    exact
      { isNew := hfresh
        length_strings := hlength
        nodup_strings := hnodup
        not_isEmpty := fun decl hdecl => (isUsable_iff.mp (husable decl hdecl)).1
        modifiersFit := fun decl hdecl => (isUsable_iff.mp (husable decl hdecl)).2
        condition := ⟨e, hcondition,
          { hasSort := Expr.hasSort_truth_iff.mpr htyped
            covers := hcovers
            them := hthem
            rules := hrules
            refersToAll := fun h => (hall e).mp (hreferred h) }⟩ }
  · intro h
    obtain ⟨e, hcondition, he⟩ := h.condition
    have husable : ∀ decl ∈ rule.strings, IsUsable decl := fun decl hdecl =>
      isUsable_iff.mpr ⟨h.not_isEmpty decl hdecl, h.modifiersFit decl hdecl⟩
    exact ⟨h.isNew, h.length_strings, ⟨h.nodup_strings, husable⟩, e, hcondition,
      Expr.hasSort_truth_iff.mp he.hasSort, Expr.known_iff.mpr ⟨he.covers, he.them, he.rules⟩,
      fun hreject => (hall e).mpr (he.refersToAll hreject)⟩

/-- A rule with a string that its condition refers to by `them` only. -/
def anyOfThem : RuleDecl where
  name := "a"
  span := .unknown
  isPrivate := false
  isGlobal := false
  tags := []
  metaEntries := []
  strings := [⟨"x", .text [49], {}, .unknown⟩]
  condition := some (.ofSet .any .them .unknown)

/-- `them` is enough: no `$x`, `#x` or item has to select the strings of an accepted rule. -/
theorem checkRule_anyOfThem :
    checkRule anyOfThem ∅ true = .ok () ∧
      ∃ e, anyOfThem.condition = some e ∧ "x" ∈ anyOfThem.stringNames ∧ ¬ e.Selects "x" := by
  have husable : ∀ decl ∈ anyOfThem.strings, IsUsable decl := by
    simp [anyOfThem, IsUsable, isEmptyValue, invalidModifier?]
  refine ⟨checkRule_eq_ok.mpr ⟨by simp, by decide, ⟨by decide, husable⟩,
    .ofSet .any .them .unknown, rfl, trivial, ?_, ?_⟩, _, rfl, List.mem_cons_self, ?_⟩
  · exact List.forall_mem_cons.mpr ⟨List.cons_ne_nil _ _, List.forall_mem_nil _⟩
  · exact fun _ s _ => ⟨_, List.mem_cons_self, rfl⟩
  · rintro ⟨item, ⟨part, hpart, hmentions⟩, -⟩
    rw [← Expr.mem_subterms] at hpart
    rw [List.mem_singleton.mp hpart] at hmentions
    exact hmentions

end Validation

end PackageScan
