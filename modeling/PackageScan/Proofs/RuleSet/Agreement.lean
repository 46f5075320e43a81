import PackageScan.Proofs.Log.Yielding
import PackageScan.Proofs.RuleSet.Building

/-!
# What the checks accept resolves

The checks of a source and the resolving of its conditions walk over the same expressions, one
collecting the first offence, the other looking names up. They agree: once the rules of a source
are accepted, pushing them one after another fails at most where a string cannot be compiled, and
every condition resolves to one whose sets are not empty and list nothing twice.

The argument goes along the pushes. After each of them the names that the checks have declared are
those of the set (`RuleSet.exists_declares_of_pushAll`), so that the agreement on one rule
(`RuleSet.exists_resolve_of_checkRule`) applies to the next.
-/

namespace PackageScan

/-! ### Strings that cannot be compiled -/

/-- The fault is about what a string looks for. -/
def RuleFault.IsPatternFault (fault : RuleFault) : Prop :=
  (∃ name reason, fault = .invalidHexString name reason) ∨
    ∃ name reason, fault = .invalidRegex name reason

/-- A string fails to compile for no other reason than what it looks for. -/
theorem Pattern.isPatternFault_of_compile {limit : Nat} {decl : StringDecl}
    {e : ValidationError} (h : Pattern.compile limit decl = .error e) :
    e.fault.IsPatternFault := by
  rw [Pattern.compile] at h
  split at h
  · obtain ⟨reason, rfl⟩ := Outcome.exists_of_mapError_bind_eq_error h
    exact Or.inr ⟨decl.name, reason, rfl⟩
  · obtain ⟨reason, rfl⟩ := Outcome.exists_of_mapError_bind_eq_error h
    exact Or.inl ⟨decl.name, reason, rfl⟩
  · obtain ⟨reason, rfl⟩ := Outcome.exists_of_mapError_bind_eq_error h
    exact Or.inr ⟨decl.name, reason, rfl⟩

namespace RuleSet

variable {limit : Nat} {s s' : RuleSet} {decl : RuleDecl} {declared : RuleNames} {reject : Bool}

/-! ### One rule -/

/-- Pushing a checked rule fails only where a string cannot be compiled. -/
private theorem exists_compile_of_push {e : ValidationError} (hd : Declares declared s)
    (hc : Validation.checkRule decl declared reject = .ok ()) (hl : decl.ListsItems)
    (h : s.push limit decl = .error e) :
    ∃ string ∈ decl.strings, Pattern.compile limit string = .error e := by
  obtain ⟨cond, c, hcond, hresolve, -⟩ := exists_resolve_of_checkRule hd hc hl
  rw [push, hcond] at h
  rcases Outcome.bind_eq_error.mp h with h | ⟨block, -, h⟩
  · exact Outcome.exists_of_mapM_eq_error h
  · rw [hresolve] at h
    cases h

private theorem isPatternFault_of_push {e : ValidationError} (hd : Declares declared s)
    (hc : Validation.checkRule decl declared reject = .ok ()) (hl : decl.ListsItems)
    (h : s.push limit decl = .error e) : e.fault.IsPatternFault := by
  obtain ⟨string, -, h⟩ := exists_compile_of_push hd hc hl h
  exact Pattern.isPatternFault_of_compile h

/-- Pushing a checked rule adds a condition with proper sets. -/
private theorem properSets_push (hd : Declares declared s)
    (hc : Validation.checkRule decl declared reject = .ok ()) (hl : decl.ListsItems)
    (h : s.push limit decl = .ok s') (hs : ∀ rule ∈ s.rules, rule.condition.ProperSets) :
    ∀ rule ∈ s'.rules, rule.condition.ProperSets := by
  obtain ⟨e, c, he, hresolve, hp⟩ := exists_resolve_of_checkRule hd hc hl
  obtain ⟨e', block, c', he', -, hresolve', rfl⟩ := push_eq_ok.mp h
  cases he.symm.trans he'
  cases hresolve.symm.trans hresolve'
  intro rule hrule
  rcases Array.mem_push.mp hrule with hrule | rfl
  · exact hs rule hrule
  · exact hp

/-- The sets of every built rule set are proper. -/
private theorem Built.properSets {decls : List RuleDecl} (h : Built limit decls s) :
    ∀ rule ∈ s.rules, rule.condition.ProperSets := by
  induction h with
  | empty => exact fun rule h => absurd h (Array.not_mem_empty rule)
  | push _ hd hc _ hl hp ih => exact properSets_push hd hc hl hp ih

/-! ### Rules one after another -/

/-- **The checks keep up with the pushes.** When the first rules of a checked source are pushed,
the names of the set are those that the others are checked against. -/
theorem exists_declares_of_pushAll {pre rest : List RuleDecl} (hd : Declares declared s)
    (hc : Validation.checkRules reject declared (pre ++ rest) = .ok ())
    (hp : s.pushAll limit pre = .ok s') :
    ∃ declared', Declares declared' s' ∧ Validation.checkRules reject declared' rest = .ok () := by
  induction pre generalizing s declared with
  | nil => exact ⟨declared, Except.ok.inj hp ▸ hd, hc⟩
  | cons rule pre ih =>
    obtain ⟨-, hpre⟩ := Validation.checkRules_cons_eq_ok.mp hc
    obtain ⟨s₁, hs₁, hp⟩ := Outcome.bind_eq_ok.mp hp
    exact ih (hd.push hs₁) hpre hp

/-- The push that fails is the first one that does. -/
private theorem exists_push_of_pushAll_eq_error {rules : List RuleDecl} {e : ValidationError}
    (h : s.pushAll limit rules = .error e) :
    ∃ pre decl post s₁, rules = pre ++ decl :: post ∧ s.pushAll limit pre = .ok s₁ ∧
      s₁.push limit decl = .error e := by
  induction rules generalizing s with
  | nil => exact nomatch h
  | cons rule rest ih =>
    rcases Outcome.bind_eq_error.mp h with h | ⟨s₁, hs₁, h⟩
    · exact ⟨[], rule, rest, s, rfl, rfl, h⟩
    · obtain ⟨pre, decl, post, s₂, rfl, hpre, h⟩ := ih h
      exact ⟨rule :: pre, decl, post, s₂, rfl, Outcome.bind_eq_ok.mpr ⟨s₁, hs₁, hpre⟩, h⟩

/-- Pushing the rules of a checked source fails only where a string of one of them cannot be
compiled. -/
theorem exists_compile_of_pushAll {rules : List RuleDecl} {e : ValidationError}
    (hd : Declares declared s) (hc : Validation.checkRules reject declared rules = .ok ())
    (hl : ∀ rule ∈ rules, rule.ListsItems) (h : s.pushAll limit rules = .error e) :
    ∃ rule ∈ rules, ∃ string ∈ rule.strings, Pattern.compile limit string = .error e := by
  obtain ⟨pre, decl, post, s₁, rfl, hpre, h⟩ := exists_push_of_pushAll_eq_error h
  obtain ⟨declared', hd', hc'⟩ := exists_declares_of_pushAll hd hc hpre
  have hmem : decl ∈ pre ++ decl :: post := List.mem_append_right _ List.mem_cons_self
  obtain ⟨hcheck, -⟩ := Validation.checkRules_cons_eq_ok.mp hc'
  exact ⟨decl, hmem, exists_compile_of_push hd' hcheck (hl decl hmem) h⟩

private theorem properSets_pushAll {rules : List RuleDecl} (hd : Declares declared s)
    (hc : Validation.checkRules reject declared rules = .ok ())
    (hl : ∀ rule ∈ rules, rule.ListsItems) (hp : s.pushAll limit rules = .ok s')
    (hs : ∀ rule ∈ s.rules, rule.condition.ProperSets) :
    ∀ rule ∈ s'.rules, rule.condition.ProperSets := by
  induction rules generalizing s declared with
  | nil => exact Except.ok.inj hp ▸ hs
  | cons rule rest ih =>
    obtain ⟨hrule, hrest⟩ := Validation.checkRules_cons_eq_ok.mp hc
    obtain ⟨s₁, hs₁, hp⟩ := Outcome.bind_eq_ok.mp hp
    obtain ⟨hlrule, hlrest⟩ := List.forall_mem_cons.mp hl
    exact ih (hd.push hs₁) hrest hlrest hp (properSets_push hd hrule hlrule hs₁ hs)

end RuleSet

namespace Compiler

open RuleSet

/-- **Validator and resolver agree.** Let a source be read and pass the checks against the names
of a rule set that a compiler holds after any sources. Then pushing its rules one after another
fails only with a string that cannot be compiled; whenever the rules before a rule have been
pushed, the condition of the rule is there and resolves, and its sets list at least one pattern
and none twice; and when all have been pushed, this is so for every rule of the set. -/
theorem pushAll_of_check (earlier preferences : CompilerPreferences) (sources : List String)
    (j : Journal) (tokens : TokenStream) (rules : List RuleDecl)
    (hparse : Parser.parse tokens = .ok rules)
    (hcheck : Validation.check rules
      (((Compiler.addEach { preferences := earlier } sources).run j).1).declared
      preferences.rejectUnreferenced = .ok ()) :
    let s := (((Compiler.addEach { preferences := earlier } sources).run j).1).set
    (∀ e, s.pushAll preferences.programLimit rules = .error e → e.fault.IsPatternFault) ∧
    (∀ pre decl post s₁, rules = pre ++ decl :: post →
      s.pushAll preferences.programLimit pre = .ok s₁ →
      ∃ e condition, decl.condition = some e ∧ (s₁.namesFor decl).resolve e = .ok condition ∧
        condition.ProperSets) ∧
    ∀ s', s.pushAll preferences.programLimit rules = .ok s' →
      ∀ rule ∈ s'.rules, rule.condition.ProperSets := by
  intro s
  have hl := (Parser.sourceForm_of_parse hparse).listsItems
  have hd : Declares (((Compiler.addEach { preferences := earlier } sources).run j).1).declared s :=
    declares _
  have hrules := (Validation.check_eq_ok.mp hcheck).2
  -- the rule after those that have been pushed is checked against the names that are there
  have hnext : ∀ pre decl post s₁, rules = pre ++ decl :: post →
      s.pushAll preferences.programLimit pre = .ok s₁ →
      ∃ declared, Declares declared s₁ ∧ decl.ListsItems ∧
        Validation.checkRule decl declared preferences.rejectUnreferenced = .ok () := by
    rintro pre decl post s₁ rfl hpre
    obtain ⟨declared, hd', hc'⟩ := exists_declares_of_pushAll hd hrules hpre
    exact ⟨declared, hd', hl decl (by simp), (Validation.checkRules_cons_eq_ok.mp hc').1⟩
  refine ⟨fun e he => ?_, fun pre decl post s₁ hsplit hpre => ?_, fun s' hs' => ?_⟩
  · obtain ⟨pre, decl, post, s₁, hsplit, hpre, he⟩ := exists_push_of_pushAll_eq_error he
    obtain ⟨declared, hd', hl', hc'⟩ := hnext pre decl post s₁ hsplit hpre
    exact isPatternFault_of_push hd' hc' hl' he
  · obtain ⟨declared, hd', hl', hc'⟩ := hnext pre decl post s₁ hsplit hpre
    exact exists_resolve_of_checkRule hd' hc' hl'
  · have hstart : Built earlier.programLimit [] ({ preferences := earlier } : Compiler).set :=
      .empty
    have hs : ∀ rule ∈ s.rules, rule.condition.ProperSets := by
      have hrun := addEach_yields { preferences := earlier } sources j
      rw [show s = (addAll { preferences := earlier } sources).set from
        congrArg Compiler.set hrun]
      exact (built_addAll sources hstart).properSets
    exact properSets_pushAll hd hrules hl hs' hs

/-- The tokens of a rule whose condition asks for all of its one string. -/
def allOfOneTokens : TokenStream where
  tokens :=
    ([.keyword .rule, .identifier "a", .leftBrace, .keyword .strings, .colon, .stringName "x",
      .assign, .text [97], .keyword .condition, .colon, .keyword .all, .keyword .of,
      .keyword .them, .rightBrace] : List Token).map fun t => ⟨t, .unknown⟩
  stop := .unknown

/-- The rule that these tokens write. -/
def allOfOne : RuleDecl where
  name := "a"
  span := .unknown
  isPrivate := false
  isGlobal := false
  tags := []
  metaEntries := []
  strings := [⟨"x", .text [97], {}, .unknown⟩]
  condition := some (.ofSet .all .them .unknown)

private theorem parse_allOfOneTokens :
    Parser.parse allOfOneTokens = .ok [allOfOne] := by decide +kernel

private theorem check_allOfOne : Validation.check [allOfOne] ∅ true = .ok () := by
  refine Validation.check_eq_ok.mpr ⟨by simp [Limits.ruleCount],
    Validation.checkRules_cons_eq_ok.mpr ⟨Validation.checkRule_eq_ok.mpr ?_, rfl⟩⟩
  have husable : ∀ decl ∈ allOfOne.strings, Validation.IsUsable decl := by
    simp [allOfOne, Validation.IsUsable, Validation.isEmptyValue, Validation.invalidModifier?]
  refine ⟨by simp, by decide, ⟨by decide, husable⟩, .ofSet .all .them .unknown, rfl, trivial,
    ?_, ?_⟩
  · exact List.forall_mem_cons.mpr ⟨List.cons_ne_nil _ _, List.forall_mem_nil _⟩
  · exact fun _ s _ => ⟨_, List.mem_cons_self, rfl⟩

/-- The rule passes the checks on its own, and its condition resolves. -/
theorem pushAll_of_check_allOfOne :
    Parser.parse allOfOneTokens = .ok [allOfOne] ∧
    Validation.check [allOfOne] (({} : Compiler).declared) true = .ok () ∧
    ∃ e condition, allOfOne.condition = some e ∧
      (RuleSet.empty.namesFor allOfOne).resolve e = .ok condition ∧ condition.ProperSets := by
  have hcheck : Validation.check [allOfOne] (({} : Compiler).declared) true = .ok () := by
    rw [show ({} : Compiler).declared = ∅ from Std.HashSet.ofList_nil]
    exact check_allOfOne
  have h := pushAll_of_check {} {} [] {} allOfOneTokens [allOfOne] parse_allOfOneTokens hcheck
  exact ⟨parse_allOfOneTokens, hcheck, h.2.1 [] allOfOne [] .empty rfl rfl⟩

end Compiler

end PackageScan
