import PackageScan.Proofs.RuleSet.Joining

/-!
# Deciding what is accepted

The checks look names up in a hash set, and where a hash set keeps a name depends on the machine.
What they decide does not: a rule passes or fails by the names of the rules before it, as a list
(`Validation.Passes`), and each part of that is decidable. So what a source leads to can be computed
without hashes (`Compiler.toOption_outcome`), for every compiler whose rules have distinct names.
-/

namespace PackageScan

/-! ### Conditions -/

namespace Expr

instance decidableWellTyped : (e : Expr) → Decidable e.WellTyped
  | .bool _ | .found _ _ | .rule _ _ | .ofSet _ _ _ => isTrue trivial
  | .not operand => operand.decidableWellTyped
  | .and left right | .or left right =>
    letI := left.decidableWellTyped
    letI := right.decidableWellTyped
    inferInstanceAs (Decidable (left.WellTyped ∧ right.WellTyped))
  | .compare _ left right _ =>
    inferInstanceAs (Decidable (left.isInteger = true ∧ right.isInteger = true))
  | .int _ | .filesize | .count _ _ => isFalse id

instance decidableKnown {strings : List String} {isRule : String → Prop} [DecidablePred isRule] :
    (e : Expr) → Decidable (e.Known strings isRule)
  | .found name _ | .count name _ => inferInstanceAs (Decidable (name ∈ strings))
  | .ofSet _ .them _ => inferInstanceAs (Decidable (strings ≠ []))
  | .ofSet _ (.items items) _ =>
    inferInstanceAs (Decidable (∀ item ∈ items, ∃ name ∈ strings, item.selects name = true))
  | .rule name _ => inferInstanceAs (Decidable (isRule name))
  | .bool _ | .int _ | .filesize | .not _ | .and _ _ | .or _ _ | .compare _ _ _ _ => isTrue trivial

end Expr

/-! ### Rules -/

namespace Validation

instance (decl : StringDecl) : Decidable (IsUsable decl) := inferInstanceAs (Decidable (_ ∧ _))

instance (rule : RuleDecl) (condition : Expr) : Decidable (RefersToAll rule condition) :=
  inferInstanceAs (Decidable (∀ s ∈ rule.strings, ∃ part ∈ condition.subterms,
    refersTo s.name part = true))

/-- The rule passes every check if the rules before it have the given names. -/
def Passes (names : List String) (rejectUnreferenced : Bool) (rule : RuleDecl) : Prop :=
  rule.name ∉ names ∧
    rule.strings.length ≤ Limits.stringsPerRule ∧
    (rule.stringNames.Nodup ∧ ∀ decl ∈ rule.strings, IsUsable decl) ∧
    ∃ e ∈ rule.condition, e.WellTyped ∧
      (∀ part ∈ e.subterms, part.Known rule.stringNames (· ∈ names)) ∧
      (rejectUnreferenced = true → RefersToAll rule e)

instance (names : List String) (reject : Bool) (rule : RuleDecl) :
    Decidable (Passes names reject rule) := inferInstanceAs (Decidable (_ ∧ _))

/-- The rules pass one after another, each with the names of those before it. -/
def AllPass (rejectUnreferenced : Bool) : List String → List RuleDecl → Prop
  | _, [] => True
  | names, rule :: rest =>
    Passes names rejectUnreferenced rule ∧ AllPass rejectUnreferenced (rule.name :: names) rest

instance decidableAllPass (reject : Bool) :
    (names : List String) → (rules : List RuleDecl) → Decidable (AllPass reject names rules)
  | _, [] => isTrue trivial
  | names, rule :: rest =>
    letI := decidableAllPass reject (rule.name :: names) rest
    inferInstanceAs
      (Decidable (Passes names reject rule ∧ AllPass reject (rule.name :: names) rest))

variable {names : List String} {declared : RuleNames} {reject : Bool}

private theorem checkRule_eq_ok_iff_passes {rule : RuleDecl}
    (hd : ∀ name, declared.contains name = true ↔ name ∈ names) :
    checkRule rule declared reject = .ok () ↔ Passes names reject rule := by
  have hfresh : declared.contains rule.name = false ↔ rule.name ∉ names := by
    rw [← hd, Bool.not_eq_true]
  rw [checkRule_eq_ok, hfresh, funext fun name => propext (hd name)]
  rfl

/-- **Passing is what the checks decide.** -/
theorem checkRules_eq_ok_iff_allPass {rules : List RuleDecl}
    (hd : ∀ name, declared.contains name = true ↔ name ∈ names) :
    checkRules reject declared rules = .ok () ↔ AllPass reject names rules := by
  induction rules generalizing declared names with
  | nil => exact iff_of_true rfl trivial
  | cons rule rest ih =>
    have hnext : ∀ name, (declared.insert rule.name).contains name = true ↔
        name ∈ rule.name :: names := fun name => by
      rw [Std.HashSet.contains_insert, Bool.or_eq_true, hd, beq_iff_eq, List.mem_cons, eq_comm]
    rw [checkRules_cons_eq_ok, checkRule_eq_ok_iff_passes hd, ih hnext, AllPass]

end Validation

/-! ### Sources -/

/-- The rule set with the rules of a source, if it is accepted, computed without hashes. -/
def RuleSet.extend? (s : RuleSet) (preferences : CompilerPreferences) (source : String) :
    Option RuleSet := do
  let rules ← Compiler.rulesIn? source
  if s.rules.size + rules.length ≤ Limits.ruleCount ∧
      Validation.AllPass preferences.rejectUnreferenced s.names rules then
    (s.pushAll preferences.programLimit rules).toOption
  else none

/-- The accepted ones of some sources, and the rule set with their rules. -/
def RuleSet.extendAll (preferences : CompilerPreferences) :
    RuleSet → List String → List String × RuleSet
  | s, [] => ([], s)
  | s, source :: rest =>
    match s.extend? preferences source with
    | none => s.extendAll preferences rest
    | some s' => ((s'.extendAll preferences rest).map (source :: ·) id)

namespace Compiler

open RuleSet (Built)

variable {c : Compiler} {source : String}

private theorem check_eq_ok_iff_allPass {rules : List RuleDecl} (h : c.set.names.Nodup) :
    Validation.check rules c.declared c.preferences.rejectUnreferenced = .ok () ↔
      c.set.rules.size + rules.length ≤ Limits.ruleCount ∧
        Validation.AllPass c.preferences.rejectUnreferenced c.set.names rules := by
  rw [Validation.check_eq_ok, size_declared h, Validation.checkRules_eq_ok_iff_allPass c.declares]

/-- **The outcome of a source**, computed without hashes. -/
theorem toOption_outcome (h : c.set.names.Nodup) (source : String) :
    ((c.outcome source).map Prod.fst).toOption = c.set.extend? c.preferences source := by
  have hok : ∀ set, ((c.outcome source).map Prod.fst).toOption = some set ↔
      ∃ rules, c.outcome source = .ok (set, rules) := fun set => by
    cases c.outcome source with
    | error e => simp [Except.map, Except.toOption]
    | ok result => simp [Except.map, Except.toOption, Prod.ext_iff]
  have hpushed : ∀ {rules} set, (c.set.pushAll c.preferences.programLimit rules).toOption =
      some set ↔ c.set.pushAll c.preferences.programLimit rules = .ok set := fun {rules} set => by
    cases c.set.pushAll c.preferences.programLimit rules <;> simp [Except.toOption]
  refine Option.ext fun set => ?_
  -- on both sides a set comes from rules that are read, pass and can be pushed
  rw [hok, RuleSet.extend?]
  simp only [outcome_eq_ok_iff_rulesIn?, check_eq_ok_iff_allPass h, Option.bind_eq_bind,
    Option.bind_eq_some_iff, Option.ite_none_right_eq_some, hpushed]

/-- **The outcome of some sources**, one after another: which of them are accepted, and the rule set
in the end. -/
theorem extendAll_eq {decls : List RuleDecl}
    (hb : Built c.preferences.programLimit decls c.set) (sources : List String) :
    c.set.extendAll c.preferences sources = (c.acceptedOf sources, (c.addAll sources).set) := by
  induction sources generalizing c decls with
  | nil => rfl
  | cons source rest ih =>
    have hstep : Built (c.add source).2.preferences.programLimit (decls ++ c.rulesOf source)
        (c.add source).2.set := by
      rw [preferences_add]
      exact built_add source hb
    have hrest := ih hstep
    have hrun : c.addAll (source :: rest) = (c.add source).2.addAll rest := rfl
    have hverdict : (c.add source).1 = (c.outcome source).map fun _ => () := rfl
    have hset : (c.add source).2 = c.settle source (c.outcome source) := rfl
    rw [preferences_add] at hrest
    rw [RuleSet.extendAll, ← toOption_outcome hb.nodup_names, acceptedOf, hverdict, hrun]
    cases houtcome : c.outcome source with
    | error e =>
      -- only the counters of the compiler have changed
      rw [houtcome] at hset
      rw [hset] at hrest ⊢
      exact hrest
    | ok result =>
      rw [houtcome] at hset
      rw [hset] at hrest ⊢
      exact congrArg (Prod.map (source :: ·) id) hrest

end Compiler

/-- A source is compiled, all or nothing, when it extends the empty set. -/
theorem RuleSet.compile_eq_ok_iff {preferences : CompilerPreferences} {source : String}
    {set : RuleSet} :
    RuleSet.compile preferences source = .ok set ↔
      RuleSet.empty.extend? preferences source = some set := by
  have houtcome := Compiler.toOption_outcome (c := { preferences }) List.nodup_nil source
  rw [← show _ = RuleSet.empty.extend? preferences source from houtcome, RuleSet.compile]
  cases (({ preferences : Compiler }).outcome source).map Prod.fst <;> simp [Except.toOption]

end PackageScan
