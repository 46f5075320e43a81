import Mathlib.Data.List.Nodup
import PackageScan.Proofs.Outcome
import PackageScan.Rule.Validation

/-!
# What an accepted rule satisfies

Each check of a rule is read as the property that it decides, so that nothing below depends on
the order in which the checks run or on the error that a failing one reports:

* `Validation.checkStrings` decides that names are fresh and distinct and that each string can
  be looked for (`Validation.checkStrings_eq_ok`).
* `Validation.checkTypes` decides that the condition is a truth value that compares integers
  only (`Expr.WellTyped`).
* `Validation.checkReferences` decides that every part of the condition refers to something that
  is declared (`Expr.Known`) and, on request, that every string is referred to.

Together they make the condition *scoped* (`Expr.Scoped`). The one thing that they leave to the
reader of rules is that a set of strings lists an item at all (`Expr.ListsItems`): a set that
lists none selects nothing, and no check looks at it.
-/

namespace PackageScan

/-! ### Properties of conditions -/

namespace Expr

/-- The expression is a truth value, and so are the operands of its connectives; comparisons have
integers on both sides. -/
def WellTyped : Expr → Prop
  | .bool _ | .found _ _ | .rule _ _ | .ofSet _ _ _ => True
  | .not operand => operand.WellTyped
  | .and left right | .or left right => left.WellTyped ∧ right.WellTyped
  | .compare _ left right _ => left.isInteger = true ∧ right.isInteger = true
  | .int _ | .filesize | .count _ _ => False

/-- What the expression itself refers to is declared, its parts apart. -/
def Known (strings : List String) (isRule : String → Prop) : Expr → Prop
  | .found name _ | .count name _ => name ∈ strings
  | .ofSet _ .them _ => strings ≠ []
  | .ofSet _ (.items items) _ => ∀ item ∈ items, ∃ name ∈ strings, item.selects name = true
  | .rule name _ => isRule name
  | _ => True

/-- Every set of strings in the expression lists an item or means all strings. -/
def ListsItems : Expr → Prop
  | .ofSet _ set _ => set ≠ .items []
  | .not operand => operand.ListsItems
  | .and left right | .or left right | .compare _ left right _ =>
    left.ListsItems ∧ right.ListsItems
  | .bool _ | .found _ _ | .count _ _ | .int _ | .filesize | .rule _ _ => True

/-- The expression is an integer over the given strings. -/
def ScopedOperand (strings : List String) : Expr → Prop
  | .int _ | .filesize => True
  | .count name _ => name ∈ strings
  | _ => False

/-- The expression is a condition over the given strings and rules: no integer stands for a truth
value nor the other way round, every name is declared and every set selects some string. -/
def Scoped (strings : List String) (isRule : String → Prop) : Expr → Prop
  | .bool _ => True
  | .found name _ => name ∈ strings
  | .rule name _ => isRule name
  | .not operand => operand.Scoped strings isRule
  | .and left right | .or left right =>
    left.Scoped strings isRule ∧ right.Scoped strings isRule
  | .compare _ left right _ => left.ScopedOperand strings ∧ right.ScopedOperand strings
  | .ofSet _ set _ => ∃ name ∈ strings, set.selects name = true
  | .int _ | .filesize | .count _ _ => False

/-! ### Parts of an expression -/

private theorem subtermsBefore_eq (e : Expr) (rest : List Expr) :
    e.subtermsBefore rest = e.subterms ++ rest := by
  induction e generalizing rest with
  | not operand ih =>
    rw [subterms, subtermsBefore, subtermsBefore, ih, ih [], List.append_nil]
    rfl
  | and left right ihl ihr | or left right ihl ihr | compare _ left right _ ihl ihr =>
    rw [subterms, subtermsBefore, subtermsBefore, ihl, ihr, ihl (right.subtermsBefore []), ihr []]
    simp
  | _ => rfl

theorem self_mem_subterms (e : Expr) : e ∈ e.subterms := by
  cases e <;> exact List.mem_cons_self

@[simp] theorem subterms_not (operand : Expr) :
    (Expr.not operand).subterms = .not operand :: operand.subterms := rfl

@[simp] theorem subterms_and (left right : Expr) :
    (Expr.and left right).subterms = .and left right :: (left.subterms ++ right.subterms) := by
  rw [subterms, subtermsBefore, subtermsBefore_eq left]
  rfl

@[simp] theorem subterms_or (left right : Expr) :
    (Expr.or left right).subterms = .or left right :: (left.subterms ++ right.subterms) := by
  rw [subterms, subtermsBefore, subtermsBefore_eq left]
  rfl

@[simp] theorem subterms_compare (op : Comparison) (left right : Expr) (span : Span) :
    (Expr.compare op left right span).subterms =
      .compare op left right span :: (left.subterms ++ right.subterms) := by
  rw [subterms, subtermsBefore, subtermsBefore_eq left]
  rfl

private theorem scopedOperand_of_known {strings : List String} {isRule : String → Prop} {e : Expr}
    (hi : e.isInteger = true) (hk : e.Known strings isRule) : e.ScopedOperand strings := by
  cases e with
  | int _ | filesize => trivial
  | count name span => exact hk
  | _ => exact absurd hi Bool.false_ne_true

/-- **The checks suffice.** A well-typed condition that refers to nothing undeclared is scoped,
provided that its sets list something. -/
theorem scoped_of_known {strings : List String} {isRule : String → Prop} {e : Expr}
    (ht : e.WellTyped) (hk : ∀ part ∈ e.subterms, part.Known strings isRule)
    (hl : e.ListsItems) : e.Scoped strings isRule := by
  induction e with
  | bool _ => trivial
  | found name span => exact hk _ (self_mem_subterms _)
  | rule name span => exact hk _ (self_mem_subterms _)
  | not operand ih =>
    exact ih ht (fun part hpart => hk part (List.mem_cons_of_mem _ hpart)) hl
  | and left right ihl ihr | or left right ihl ihr =>
    simp only [subterms_and, subterms_or, List.forall_mem_cons, List.forall_mem_append] at hk
    exact ⟨ihl ht.1 hk.2.1 hl.1, ihr ht.2 hk.2.2 hl.2⟩
  | compare op left right span =>
    rw [subterms_compare, List.forall_mem_cons, List.forall_mem_append] at hk
    exact ⟨scopedOperand_of_known ht.1 (hk.2.1 left (self_mem_subterms left)),
      scopedOperand_of_known ht.2 (hk.2.2 right (self_mem_subterms right))⟩
  | ofSet quantifier set span =>
    have hset := hk _ (self_mem_subterms _)
    cases set with
    | them =>
      obtain ⟨name, rest, hs⟩ := List.exists_cons_of_ne_nil hset
      exact ⟨name, hs ▸ List.mem_cons_self, rfl⟩
    | items items =>
      obtain ⟨item, rest, rfl⟩ := List.exists_cons_of_ne_nil fun h => hl (congrArg _ h)
      obtain ⟨name, hname, hs⟩ := hset item List.mem_cons_self
      exact ⟨name, hname, List.any_eq_true.mpr ⟨item, List.mem_cons_self, hs⟩⟩
  | int _ | filesize | count _ _ => exact absurd ht id

end Expr

/-- The condition of the rule, if it has one, lists an item in each of its sets. -/
def RuleDecl.ListsItems (rule : RuleDecl) : Prop :=
  ∀ e, rule.condition = some e → e.ListsItems

/-- The names of the declared strings. -/
def RuleDecl.stringNames (rule : RuleDecl) : List String := rule.strings.map StringDecl.name

namespace Validation

/-! ### The checks one by one -/

/-- The string is not empty and has no modifier that its kind does not take. -/
def IsUsable (decl : StringDecl) : Prop :=
  isEmptyValue decl.value = false ∧ invalidModifier? decl.value decl.modifiers = none

theorem checkStrings_eq_ok {rule : String} {seen : Std.HashSet String}
    {decls : List StringDecl} :
    checkStrings rule seen decls = .ok () ↔
      (decls.map StringDecl.name).Nodup ∧
        ∀ decl ∈ decls, seen.contains decl.name = false ∧ IsUsable decl := by
  -- a name may have been seen before the list or within it; each step moves one name over
  induction decls generalizing seen with
  | nil => simp [checkStrings]
  | cons decl rest ih =>
    rw [checkStrings, List.map_cons, List.nodup_cons, List.forall_mem_cons]
    split_ifs with hseen hempty
    · simp [hseen]
    · simp [IsUsable, hempty]
    · simp only [Bool.not_eq_true] at hseen hempty
      cases hm : invalidModifier? decl.value decl.modifiers with
      | some modifier => simp [IsUsable, hm]
      | none =>
        simp only [ih, Std.HashSet.contains_insert, Bool.or_eq_false_iff, beq_eq_false_iff_ne,
          hseen, IsUsable, hempty, hm, List.mem_map, not_exists, not_and]
        constructor
        · rintro ⟨hnodup, h⟩
          exact ⟨⟨fun d hd he => (h d hd).1.1 he.symm, hnodup⟩, ⟨trivial, trivial, trivial⟩,
            fun d hd => ⟨(h d hd).1.2, (h d hd).2⟩⟩
        · rintro ⟨⟨hne, hnodup⟩, -, h⟩
          exact ⟨hnodup, fun d hd => ⟨⟨fun he => hne d hd he.symm, (h d hd).1⟩, (h d hd).2⟩⟩

private theorem checkTypes_eq_ok {rule : RuleDecl} {e : Expr} :
    checkTypes rule e = .ok () ↔ e.WellTyped := by
  induction e with
  | bool _ | found _ _ | rule _ _ | ofSet _ _ _ => exact iff_of_true rfl trivial
  | not operand ih => exact ih
  | and left right ihl ihr | or left right ihl ihr =>
    rw [checkTypes, Outcome.check_bind_eq_ok, Expr.WellTyped, ihl, ihr]
  | compare op left right span =>
    rw [checkTypes, Expr.WellTyped, ← Bool.and_eq_true]
    split_ifs with h <;> simp [h]
  | int _ | filesize | count _ _ => exact iff_of_false (fun h => nomatch h) id

private theorem danglingReference?_eq_none {rule : RuleDecl} {declared : RuleNames} {e : Expr} :
    danglingReference? rule declared e = none ↔
      e.Known rule.stringNames fun name => declared.contains name = true := by
  cases e with
  | found name span | count name span =>
    simp [danglingReference?, Expr.Known, RuleDecl.stringNames]
  | rule name span => simp [danglingReference?, Expr.Known]
  | ofSet quantifier set span =>
    cases set with
    | them => simp [danglingReference?, Expr.Known, RuleDecl.stringNames]
    | items items => simp [danglingReference?, Expr.Known, RuleDecl.stringNames]
  | _ => simp [danglingReference?, Expr.Known]

/-- Every string of the rule is referred to in the condition. -/
def RefersToAll (rule : RuleDecl) (condition : Expr) : Prop :=
  ∀ s ∈ rule.strings, ∃ part ∈ condition.subterms, refersTo s.name part = true

private theorem checkReferences_eq_ok {rule : RuleDecl} {condition : Expr} {declared : RuleNames}
    {rejectUnreferenced : Bool} :
    checkReferences rule condition declared rejectUnreferenced = .ok () ↔
      (∀ part ∈ condition.subterms,
        part.Known rule.stringNames fun name => declared.contains name = true) ∧
      (rejectUnreferenced = true → RefersToAll rule condition) := by
  have hknown : condition.subterms.findSome? (danglingReference? rule declared) = none ↔
      ∀ part ∈ condition.subterms,
        part.Known rule.stringNames fun name => declared.contains name = true := by
    rw [List.findSome?_eq_none_iff]
    exact forall₂_congr fun _ _ => danglingReference?_eq_none
  have hunused : rule.strings.find? (fun s => !condition.subterms.any (refersTo s.name)) = none ↔
      RefersToAll rule condition := by
    simp [RefersToAll]
  rw [checkReferences, ← hknown, ← hunused]
  cases condition.subterms.findSome? (danglingReference? rule declared) with
  | some e => simp
  | none =>
    cases rejectUnreferenced with
    | false => simp
    | true =>
      cases rule.strings.find? fun s => !condition.subterms.any (refersTo s.name) <;> simp

/-- **A rule is accepted when every check passes.** -/
theorem checkRule_eq_ok {rule : RuleDecl} {declared : RuleNames} {rejectUnreferenced : Bool} :
    checkRule rule declared rejectUnreferenced = .ok () ↔
      declared.contains rule.name = false ∧
      rule.strings.length ≤ Limits.stringsPerRule ∧
      (rule.stringNames.Nodup ∧ ∀ decl ∈ rule.strings, IsUsable decl) ∧
      ∃ e, rule.condition = some e ∧ e.WellTyped ∧
        (∀ part ∈ e.subterms,
          part.Known rule.stringNames fun name => declared.contains name = true) ∧
        (rejectUnreferenced = true → RefersToAll rule e) := by
  have hstrings : checkStrings rule.name ∅ rule.strings = .ok () ↔
      rule.stringNames.Nodup ∧ ∀ decl ∈ rule.strings, IsUsable decl := by
    rw [checkStrings_eq_ok]
    simp [RuleDecl.stringNames]
  rw [checkRule]
  split
  · rename_i h
    simp [h]
  · rename_i hfresh
    simp only [Bool.not_eq_true] at hfresh
    dsimp only
    split
    · rename_i h
      simp [Nat.not_le.mpr h]
    · rename_i hcount
      rw [Outcome.check_bind_eq_ok, hstrings]
      cases hc : rule.condition with
      | none => simp
      | some e =>
        simp only [Outcome.check_bind_eq_ok, checkTypes_eq_ok, checkReferences_eq_ok, hfresh,
          Nat.not_lt.mp hcount, true_and, Option.some.injEq, exists_eq_left']

/-! ### Rules one after another -/

theorem checkRules_cons_eq_ok {rejectUnreferenced : Bool} {declared : RuleNames}
    {rule : RuleDecl} {rest : List RuleDecl} :
    checkRules rejectUnreferenced declared (rule :: rest) = .ok () ↔
      checkRule rule declared rejectUnreferenced = .ok () ∧
        checkRules rejectUnreferenced (declared.insert rule.name) rest = .ok () := by
  rw [checkRules]
  cases checkRule rule declared rejectUnreferenced <;> simp

/-- A source is accepted when there is room for its rules and each is accepted in turn. -/
theorem check_eq_ok {rules : List RuleDecl} {declared : RuleNames} {rejectUnreferenced : Bool} :
    check rules declared rejectUnreferenced = .ok () ↔
      declared.size + rules.length ≤ Limits.ruleCount ∧
        checkRules rejectUnreferenced declared rules = .ok () := by
  rw [check, checkCount]
  by_cases h : Limits.ruleCount < declared.size + rules.length
  · simp [h, Nat.not_le.mpr h]
  · simp [h, Nat.not_lt.mp h, Outcome.mapError_eq_ok]

end Validation

end PackageScan
