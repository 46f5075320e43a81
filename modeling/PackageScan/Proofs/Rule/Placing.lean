import PackageScan.Proofs.Rule.Grammar

/-!
# Where rules stand does not matter

The same tokens at other places of a source write the same rules at other places. What remains of
a rule when its places are taken away is its `RuleDecl.bare` form; a form of the grammar is
*placeless* when tokens with the same values have the form of something that is the same without
its places (`Grammar.Placeless`). Every form of the grammar is, by one lemma for each.

The checks look at places only to report an offence, so a rule passes them exactly if its bare form
does (`Validation.checkRule_bare`).
-/

namespace PackageScan

/-! ### Taking places away -/

/-- The expression without its places. -/
def Expr.bare : Expr → Expr
  | .bool value => .bool value
  | .found name _ => .found name .unknown
  | .count name _ => .count name .unknown
  | .int value => .int value
  | .filesize => .filesize
  | .rule name _ => .rule name .unknown
  | .not operand => .not operand.bare
  | .and left right => .and left.bare right.bare
  | .or left right => .or left.bare right.bare
  | .compare op left right _ => .compare op left.bare right.bare .unknown
  | .ofSet quantifier set _ => .ofSet quantifier set .unknown

/-- The meta entry without its place. -/
def MetaEntry.bare (entry : MetaEntry) : MetaEntry := { entry with span := .unknown }

/-- The declared string without its place. -/
def StringDecl.bare (decl : StringDecl) : StringDecl := { decl with span := .unknown }

/-- The rule without its places. -/
def RuleDecl.bare (decl : RuleDecl) : RuleDecl :=
  { decl with
    span := .unknown
    metaEntries := decl.metaEntries.map MetaEntry.bare
    strings := decl.strings.map StringDecl.bare
    condition := decl.condition.map Expr.bare }

/-! ### Forms of the grammar -/

namespace Grammar

open PackageScan.Parser (Tokens)

/-- The tokens have the same values one by one; their places may differ. -/
def SameValues (ts us : Tokens) : Prop := us.map Located.value = ts.map Located.value

/-- Tokens with the values of some tokens that have the form have it as well, for something that
is the same without its places. -/
def Placeless {α : Type} (bare : α → α) (Form : Tokens → α → Prop) : Prop :=
  ∀ ⦃ts us : Tokens⦄ ⦃a : α⦄, SameValues ts us → Form ts a → ∃ b, Form us b ∧ bare b = bare a

variable {ts ts' us : Tokens} {t : Located Token}

@[simp] theorem sameValues_nil : SameValues [] us ↔ us = [] := List.map_eq_nil_iff

@[simp] theorem sameValues_cons :
    SameValues (t :: ts) us ↔ ∃ s vs, us = ⟨t.value, s⟩ :: vs ∧ SameValues ts vs := by
  rw [SameValues, List.map_cons, List.map_eq_cons_iff]
  constructor
  · rintro ⟨⟨value, s⟩, vs, rfl, rfl, h⟩
    exact ⟨s, vs, rfl, h⟩
  · rintro ⟨s, vs, rfl, h⟩
    exact ⟨⟨t.value, s⟩, vs, rfl, rfl, h⟩

@[simp] theorem sameValues_append :
    SameValues (ts ++ ts') us ↔
      ∃ vs vs', us = vs ++ vs' ∧ SameValues ts vs ∧ SameValues ts' vs' := by
  rw [SameValues, List.map_append, List.map_eq_append_iff]
  rfl

/-! ### Forms of conditions -/

private theorem placeless_items : Placeless id ItemsForm := by
  intro ts us items hv h
  induction h generalizing us with
  | one hitem =>
    simp only [sameValues_cons, sameValues_nil] at hv
    obtain ⟨s, _, rfl, rfl⟩ := hv
    exact ⟨_, .one hitem, rfl⟩
  | more hitem _ ih =>
    simp only [sameValues_cons] at hv
    obtain ⟨s, _, rfl, s', us, rfl, hv⟩ := hv
    obtain ⟨_, hrest, rfl⟩ := ih hv
    exact ⟨_, .more hitem hrest, rfl⟩

private theorem placeless_derives {level : Level} {d : Nat} :
    Placeless Expr.bare (Derives level d) := by
  intro ts us e hv h
  induction h generalizing us with
  | true | false | filesize | integer =>
    simp only [sameValues_cons, sameValues_nil] at hv
    obtain ⟨s, _, rfl, rfl⟩ := hv
    exact ⟨_, by constructor, rfl⟩
  | count =>
    simp only [sameValues_cons, sameValues_nil] at hv
    obtain ⟨s, _, rfl, rfl⟩ := hv
    exact ⟨_, .count, rfl⟩
  | rule =>
    simp only [sameValues_cons, sameValues_nil] at hv
    obtain ⟨s, _, rfl, rfl⟩ := hv
    exact ⟨_, .rule, rfl⟩
  | found hname =>
    simp only [sameValues_cons, sameValues_nil] at hv
    obtain ⟨s, _, rfl, rfl⟩ := hv
    exact ⟨_, .found hname, rfl⟩
  | @ofThem d t q _ _ hq =>
    simp only [sameValues_cons, sameValues_nil] at hv
    obtain ⟨s, _, rfl, s₁, _, rfl, s₂, _, rfl, rfl⟩ := hv
    exact ⟨_, .ofThem (t := ⟨t.value, s⟩) hq, rfl⟩
  | @ofItems d t q _ _ _ _ _ hq hi =>
    simp only [sameValues_cons, sameValues_append, sameValues_nil] at hv
    obtain ⟨s, _, rfl, s₁, _, rfl, s₂, _, rfl, us, _, rfl, hus, s₃, _, rfl, rfl⟩ := hv
    obtain ⟨_, hi', rfl⟩ := placeless_items hus hi
    exact ⟨_, .ofItems (t := ⟨t.value, s⟩) hq hi', rfl⟩
  | parentheses _ ih =>
    simp only [sameValues_cons, sameValues_append, sameValues_nil] at hv
    obtain ⟨s₁, _, rfl, us, _, rfl, hus, s₂, _, rfl, rfl⟩ := hv
    obtain ⟨e', he', hbare⟩ := ih hus
    exact ⟨e', .parentheses he', hbare⟩
  | alone _ ih =>
    obtain ⟨e', he', hbare⟩ := ih hv
    exact ⟨e', .alone he', hbare⟩
  | plain _ ih =>
    obtain ⟨e', he', hbare⟩ := ih hv
    exact ⟨e', .plain he', hbare⟩
  | conjunct _ ih =>
    obtain ⟨e', he', hbare⟩ := ih hv
    exact ⟨e', .conjunct he', hbare⟩
  | disjunct _ ih =>
    obtain ⟨e', he', hbare⟩ := ih hv
    exact ⟨e', .disjunct he', hbare⟩
  | not _ ih =>
    simp only [sameValues_cons] at hv
    obtain ⟨s, us, rfl, hus⟩ := hv
    obtain ⟨e', he', hbare⟩ := ih hus
    exact ⟨_, .not he', by rw [Expr.bare, Expr.bare, hbare]⟩
  | @compare d _ _ t op _ _ _ hop _ ihl ihr =>
    simp only [sameValues_append, sameValues_cons] at hv
    obtain ⟨us, _, rfl, hus, s, vs, rfl, hvs⟩ := hv
    obtain ⟨l, hl, hlbare⟩ := ihl hus
    obtain ⟨r, hr, hrbare⟩ := ihr hvs
    exact ⟨_, .compare (t := ⟨t.value, s⟩) hl hop hr, by
      rw [Expr.bare, Expr.bare, hlbare, hrbare]⟩
  | and _ _ ihl ihr =>
    simp only [sameValues_append, sameValues_cons] at hv
    obtain ⟨us, _, rfl, hus, s, vs, rfl, hvs⟩ := hv
    obtain ⟨l, hl, hlbare⟩ := ihl hus
    obtain ⟨r, hr, hrbare⟩ := ihr hvs
    exact ⟨_, .and hl hr, by rw [Expr.bare, Expr.bare, hlbare, hrbare]⟩
  | or _ _ ihl ihr =>
    simp only [sameValues_append, sameValues_cons] at hv
    obtain ⟨us, _, rfl, hus, s, vs, rfl, hvs⟩ := hv
    obtain ⟨l, hl, hlbare⟩ := ihl hus
    obtain ⟨r, hr, hrbare⟩ := ihr hvs
    exact ⟨_, .or hl hr, by rw [Expr.bare, Expr.bare, hlbare, hrbare]⟩

/-! ### Forms of rules -/

private theorem placeless_sequence {α : Type} {bare : α → α} {Form : Tokens → α → Prop}
    (hform : Placeless bare Form) : Placeless (List.map bare) (Sequence Form) := by
  intro ts us as hv h
  induction h generalizing us with
  | nil =>
    rw [sameValues_nil] at hv
    subst hv
    exact ⟨[], .nil, rfl⟩
  | cons ha _ ih =>
    rw [sameValues_append] at hv
    obtain ⟨us, vs, rfl, hus, hvs⟩ := hv
    obtain ⟨b, hb, hbare⟩ := hform hus ha
    obtain ⟨bs, hbs, hrest⟩ := ih hvs
    exact ⟨b :: bs, .cons hb hbs, by rw [List.map_cons, List.map_cons, hbare, hrest]⟩

private theorem placeless_tag : Placeless id TagForm := by
  intro ts us name hv h
  cases h
  simp only [sameValues_cons, sameValues_nil] at hv
  obtain ⟨s, _, rfl, rfl⟩ := hv
  exact ⟨name, .intro, rfl⟩

private theorem placeless_tags : Placeless id TagsForm := by
  intro ts us names hv h
  cases h with
  | absent =>
    rw [sameValues_nil] at hv
    subst hv
    exact ⟨[], .absent, rfl⟩
  | present hnames hne =>
    rw [sameValues_cons] at hv
    obtain ⟨s, us, rfl, hus⟩ := hv
    obtain ⟨names', hnames', hbare⟩ := placeless_sequence placeless_tag hus hnames
    rw [List.map_id, List.map_id] at hbare
    exact ⟨names', .present hnames' (hbare ▸ hne), hbare⟩

private theorem placeless_meta : Placeless MetaEntry.bare MetaForm := by
  intro ts us entry hv h
  cases h with
  | @intro key s₁ s₂ t value hvalue =>
    simp only [sameValues_cons, sameValues_nil] at hv
    obtain ⟨s₁, _, rfl, s₂, _, rfl, s₃, _, rfl, rfl⟩ := hv
    exact ⟨_, .intro (t := ⟨t.value, s₃⟩) hvalue, rfl⟩

private theorem placeless_string : Placeless StringDecl.bare StringForm := by
  intro ts us decl hv h
  induction h generalizing us with
  | @value name s₁ s₂ t value hname hvalue =>
    simp only [sameValues_cons, sameValues_nil] at hv
    obtain ⟨s₁, _, rfl, s₂, _, rfl, s₃, _, rfl, rfl⟩ := hv
    exact ⟨_, .value (t := ⟨t.value, s₃⟩) hname hvalue, rfl⟩
  | @modified _ decl k m s _ hmodifier ih =>
    simp only [sameValues_append, sameValues_cons, sameValues_nil] at hv
    obtain ⟨us, _, rfl, hus, s', _, rfl, rfl⟩ := hv
    obtain ⟨other, hother, hbare⟩ := ih hus
    simp only [StringDecl.bare, StringDecl.mk.injEq] at hbare
    obtain ⟨hname, hvalue, hmodifiers, -⟩ := hbare
    -- a modifier sets its flag and widens the span, whatever the span was
    refine ⟨_, .modified hother (hmodifiers ▸ hmodifier), ?_⟩
    simp only [StringDecl.bare, hname, hvalue]

private theorem placeless_section {α : Type} {bare : α → α} {k : Keyword} {absent : α}
    {Body : Tokens → α → Prop} (hbody : Placeless bare Body) :
    Placeless bare (SectionForm k absent Body) := by
  intro ts us a hv h
  cases h with
  | absent =>
    rw [sameValues_nil] at hv
    subst hv
    exact ⟨_, .absent, rfl⟩
  | present ha =>
    simp only [sameValues_cons] at hv
    obtain ⟨s₁, _, rfl, s₂, us, rfl, hus⟩ := hv
    obtain ⟨b, hb, hbare⟩ := hbody hus ha
    exact ⟨b, .present hb, hbare⟩

private theorem placeless_strings : Placeless (List.map StringDecl.bare) StringsBody := by
  intro ts us decls hv h
  obtain ⟨decls', hdecls', hbare⟩ := placeless_sequence placeless_string hv h.1
  refine ⟨decls', ⟨hdecls', ?_⟩, hbare⟩
  rintro rfl
  exact h.2 (List.map_eq_nil_iff.mp hbare.symm)

private theorem placeless_condition : Placeless (Option.map Expr.bare) ConditionBody := by
  rintro ts us _ hv ⟨e, rfl, he⟩
  obtain ⟨e', he', hbare⟩ := placeless_derives hv he
  exact ⟨some e', ⟨e', rfl, he'⟩, congrArg some hbare⟩

private theorem SameValues.hasModifier_eq (h : SameValues ts us) (k : Keyword) :
    hasModifier k us = hasModifier k ts := by
  have hany (ws : Tokens) : hasModifier k ws = (ws.map Located.value).any (· == .keyword k) := by
    rw [List.any_map]
    rfl
  rw [hany, hany, show us.map Located.value = _ from h]

private theorem SameValues.isModifier (h : SameValues ts us) (hts : ∀ t ∈ ts, IsModifier t) :
    ∀ u ∈ us, IsModifier u := by
  intro u hu
  have hmem : u.value ∈ ts.map Located.value := h ▸ List.mem_map_of_mem hu
  obtain ⟨t, ht, hvalue⟩ := List.mem_map.mp hmem
  rw [IsModifier, ← hvalue]
  exact hts t ht

private theorem placeless_rule : Placeless RuleDecl.bare RuleForm := by
  intro ts us rule hv h
  cases h with
  | @intro modifiers _ _ _ _ word nameSpan left right name _ _ _ _ hmodifiers htags hmeta hstrings
      hcondition =>
    -- tokens with the same values are cut where the tokens of the rule are
    simp only [sameValues_append, sameValues_cons, sameValues_nil] at hv
    obtain ⟨ms, _, rfl, hms, word, _, rfl, nameSpan, _, rfl, tagTokens, _, rfl, htagTokens, left, _,
      rfl, metaTokens, _, rfl, hmetaTokens, stringTokens, _, rfl, hstringTokens, conditionTokens, _,
      rfl, hconditionTokens, right, _, rfl, rfl⟩ := hv
    obtain ⟨tags, htags', rfl⟩ := placeless_tags htagTokens htags
    obtain ⟨entries, hmeta', hentries⟩ :=
      placeless_section (placeless_sequence placeless_meta) hmetaTokens hmeta
    obtain ⟨strings, hstrings', hbare⟩ :=
      placeless_section placeless_strings hstringTokens hstrings
    obtain ⟨condition, hcondition', hcondbare⟩ :=
      placeless_section placeless_condition hconditionTokens hcondition
    refine ⟨_, .intro (hms.isModifier hmodifiers) htags' hmeta' hstrings' hcondition', ?_⟩
    rw [hms.hasModifier_eq, hms.hasModifier_eq]
    simp only [RuleDecl.bare, hentries, hbare, hcondbare, id_eq]

/-- **Sources do not depend on places.** Tokens with the same values write rules that are the same
without their places. -/
theorem placeless_source : Placeless (List.map RuleDecl.bare) SourceForm :=
  placeless_sequence placeless_rule

end Grammar

/-! ### Checks -/

namespace Expr

private theorem wellTyped_bare {e : Expr} : e.bare.WellTyped ↔ e.WellTyped := by
  have hinteger (e : Expr) : e.bare.isInteger = e.isInteger := by cases e <;> rfl
  induction e with
  | not operand ih => exact ih
  | and left right ihl ihr | or left right ihl ihr => exact and_congr ihl ihr
  | compare op left right span =>
    rw [bare, WellTyped, WellTyped, hinteger, hinteger]
  | _ => exact Iff.rfl

private theorem subterms_bare (e : Expr) : e.bare.subterms = e.subterms.map bare := by
  induction e with
  | not operand ih => rw [bare, subterms_not, subterms_not, List.map_cons, ih, bare]
  | and left right ihl ihr | or left right ihl ihr | compare op left right span ihl ihr =>
    simp only [bare, subterms_and, subterms_or, subterms_compare, List.map_cons, List.map_append,
      ihl, ihr]
  | _ => rfl

private theorem known_bare {strings : List String} {isRule : String → Prop} {e : Expr} :
    e.bare.Known strings isRule ↔ e.Known strings isRule := by
  cases e with
  | ofSet quantifier set span => cases set <;> exact Iff.rfl
  | _ => exact Iff.rfl

end Expr

namespace Validation

private theorem refersTo_bare (name : String) (e : Expr) :
    refersTo name e.bare = refersTo name e := by
  cases e <;> rfl

private theorem stringNames_bare (rule : RuleDecl) : rule.bare.stringNames = rule.stringNames := by
  rw [RuleDecl.stringNames, RuleDecl.bare, List.map_map]
  rfl

private theorem refersToAll_bare {rule : RuleDecl} {e : Expr} :
    RefersToAll rule.bare e.bare ↔ RefersToAll rule e := by
  have hpart (name : String) : (∃ part ∈ e.bare.subterms, refersTo name part = true) ↔
      ∃ part ∈ e.subterms, refersTo name part = true := by
    rw [Expr.subterms_bare]
    simp only [List.mem_map, exists_exists_and_eq_and, refersTo_bare]
  simp only [RefersToAll, hpart, RuleDecl.bare, List.forall_mem_map]
  rfl

private theorem known_subterms_bare {strings : List String} {isRule : String → Prop} {e : Expr} :
    (∀ part ∈ e.bare.subterms, part.Known strings isRule) ↔
      ∀ part ∈ e.subterms, part.Known strings isRule := by
  rw [Expr.subterms_bare, List.forall_mem_map]
  exact forall₂_congr fun _ _ => Expr.known_bare

/-- **The checks do not depend on places.** -/
theorem checkRule_bare {rule : RuleDecl} {declared : RuleNames} {reject : Bool} :
    checkRule rule.bare declared reject = .ok () ↔ checkRule rule declared reject = .ok () := by
  have husable : (∀ decl ∈ rule.bare.strings, IsUsable decl) ↔
      ∀ decl ∈ rule.strings, IsUsable decl := by
    rw [RuleDecl.bare, List.forall_mem_map]
    rfl
  have hlength : rule.bare.strings.length = rule.strings.length := List.length_map _
  rw [checkRule_eq_ok, checkRule_eq_ok, stringNames_bare, husable, hlength]
  refine and_congr_right' (and_congr_right' (and_congr_right' ?_))
  rw [show rule.bare.condition = rule.condition.map Expr.bare from rfl]
  cases rule.condition with
  | none => exact exists_congr fun e => by simp
  | some e =>
    rw [Option.map_some]
    simp only [Option.some.injEq, exists_eq_left', Expr.wellTyped_bare, known_subterms_bare,
      refersToAll_bare]

theorem checkRules_bare {rules : List RuleDecl} {declared : RuleNames} {reject : Bool} :
    checkRules reject declared (rules.map RuleDecl.bare) = .ok () ↔
      checkRules reject declared rules = .ok () := by
  induction rules generalizing declared with
  | nil => exact Iff.rfl
  | cons rule rest ih =>
    rw [List.map_cons, checkRules_cons_eq_ok, checkRules_cons_eq_ok, checkRule_bare, ih]
    rfl

end Validation

end PackageScan
