import PackageScan.Proofs.Outcome
import PackageScan.Proofs.Rule.Grammar

/-!
# What is read has the form of the grammar

Each reader takes some tokens from the front and leaves the others untouched, and the tokens that
it takes derive what it answers with (`Parser.Sound`). There is one lemma per reader. Readers that
are given other readers, for what stands in parentheses or between operators, are sound when those
are; the reader of conditions is then sound by induction on the depth that is left.

Nothing here depends on the numbers that bound the loops: a loop that stops early has still read
a chain of the grammar.
-/

namespace PackageScan

namespace Parser

open Grammar

variable {stop : Position} {bound : Nat}

/-- What the reader takes from the front of the tokens has the form. -/
def Sound {α : Type} (reader : Tokens → Outcome (α × Tokens)) (Form : Tokens → α → Prop) :
    Prop :=
  ∀ ⦃ts : Tokens⦄ ⦃a : α⦄ ⦃rest : Tokens⦄, reader ts = .ok (a, rest) →
    ∃ used, ts = used ++ rest ∧ Form used a

/-! ### Single tokens -/

@[simp] theorem expectedHere_ne_ok {α : Type} {expected : Expected} {ts : Tokens} {a : α} :
    expectedHere stop expected ts ≠ .ok a := by
  cases ts <;> exact fun h => nomatch h

theorem expectKeyword_eq_ok {k : Keyword} {ts rest : Tokens} {span : Span} :
    expectKeyword stop k ts = .ok (span, rest) ↔ ts = ⟨.keyword k, span⟩ :: rest := by
  cases ts with
  | nil => simp [expectKeyword]
  | cons t ts =>
    obtain ⟨value, span'⟩ := t
    rw [expectKeyword]
    split_ifs with h
    · simp [show value = .keyword k from h]
    · have hne : value ≠ .keyword k := h
      simp [hne]

theorem expectToken_eq_ok {mark : Token} {ts rest : Tokens} {span : Span} :
    expectToken stop mark ts = .ok (span, rest) ↔ ts = ⟨mark, span⟩ :: rest := by
  cases ts with
  | nil => simp [expectToken]
  | cons t ts =>
    obtain ⟨value, span'⟩ := t
    rw [expectToken]
    split_ifs with h
    · simp [show value = mark from h]
    · have hne : value ≠ mark := h
      simp [hne]

/-! ### Sets of strings -/

/-- The item that a token writes. -/
def item? : Token → Option SetItem
  | .stringName name => if name.isEmpty then none else some (.name name)
  | .stringPrefix start => some (.startingWith start)
  | _ => none

theorem item?_eq_some {t : Token} {item : SetItem} : item? t = some item ↔ ItemForm t item := by
  constructor
  · intro h
    cases t with
    | stringName name =>
      rw [item?] at h
      split_ifs at h with hname
      cases h
      exact .name fun he => hname (by simp [he])
    | stringPrefix start =>
      cases h
      exact .startingWith
    | _ => exact nomatch h
  · rintro (hname | _)
    · rw [item?, if_neg (by simpa using hname)]
    · rfl

/-- One step through the items of a set. -/
theorem setItems_cons (seen : List SetItem) (t : Located Token) (rest : Tokens) :
    setItems stop seen (t :: rest) =
      match item? t.value with
      | none => expectedHere stop .stringName (t :: rest)
      | some item =>
        match rest with
        | ⟨.comma, _⟩ :: rest => setItems stop (item :: seen) rest
        | rest => .ok ((item :: seen).reverse, rest) := by
  rw [setItems.eq_def]
  change (match item? t.value with
    | none => _
    | some _ => _) = _
  cases item? t.value with
  | none => rfl
  | some item =>
    cases rest with
    | nil => rfl
    | cons u us =>
      obtain ⟨value, span⟩ := u
      cases value <;> rfl

private theorem setItems_sound {seen items : List SetItem} {ts rest : Tokens}
    (h : setItems stop seen ts = .ok (items, rest)) :
    ∃ used listed, ts = used ++ rest ∧ items = seen.reverse ++ listed ∧
      ItemsForm used listed := by
  -- a step takes an item and a comma, hence the induction on the number of tokens
  induction hn : ts.length using Nat.strongRecOn generalizing seen ts with
  | ind n ih =>
    subst hn
    cases ts with
    | nil => exact absurd h expectedHere_ne_ok
    | cons t ts =>
      rw [setItems_cons] at h
      cases hi : item? t.value with
      | none =>
        rw [hi] at h
        exact absurd h expectedHere_ne_ok
      | some item =>
        have hitem := item?_eq_some.mp hi
        rw [hi] at h
        dsimp only at h
        split at h
        · rename_i comma ts'
          have hshorter : ts'.length < (t :: ⟨.comma, comma⟩ :: ts').length := by
            rw [List.length_cons, List.length_cons]
            omega
          obtain ⟨used, listed, rfl, rfl, hu⟩ := ih _ hshorter h rfl
          exact ⟨t :: ⟨.comma, comma⟩ :: used, item :: listed, rfl, by simp, .more hitem hu⟩
        · cases h
          exact ⟨[t], [item], rfl, by simp, .one hitem⟩

private theorem quantified_sound {d : Nat} {t : Located Token} {q : Quantifier} {ts rest : Tokens}
    {e : Expr} (hq : QuantifierForm t.value q)
    (h : quantified stop q t.span ts = .ok (e, rest)) :
    ∃ used, ts = used ++ rest ∧ Derives .operand d (t :: used) e := by
  rw [quantified, Outcome.bind_eq_ok] at h
  obtain ⟨⟨s₁, ts₁⟩, hof, h⟩ := h
  dsimp only at h
  rw [expectKeyword_eq_ok] at hof
  subst hof
  split at h
  · rename_i s₂ ts₂
    cases h
    exact ⟨[⟨.keyword .of, s₁⟩, ⟨.keyword .them, s₂⟩], rfl, .ofThem hq⟩
  · rw [Outcome.bind_eq_ok] at h
    obtain ⟨⟨s₂, ts₂⟩, hleft, h⟩ := h
    rw [Outcome.bind_eq_ok] at h
    obtain ⟨⟨items, ts₃⟩, hitems, h⟩ := h
    rw [Outcome.bind_eq_ok] at h
    obtain ⟨⟨s₃, ts₄⟩, hright, h⟩ := h
    cases h
    rw [expectToken_eq_ok] at hleft hright
    subst hleft hright
    obtain ⟨used, listed, rfl, rfl, hu⟩ := setItems_sound hitems
    exact ⟨⟨.keyword .of, s₁⟩ :: ⟨.leftParen, s₂⟩ :: (used ++ [⟨.rightParen, s₃⟩]), by simp,
      .ofItems hq hu⟩

/-! ### Conditions -/

theorem ofToken?_eq_some {t : Token} {op : Comparison} :
    Comparison.ofToken? t = some op ↔ OperatorForm t op := by
  constructor
  · intro h
    cases t <;> cases h <;> constructor
  · rintro (_ | _) <;> rfl

theorem comparisonSpan_eq (op : Span) (left right : Expr) :
    comparisonSpan op left right = Grammar.comparisonSpan op left right := by
  dsimp only [comparisonSpan, Grammar.comparisonSpan]
  cases left.span? <;> cases right.span? <;> rfl

private theorem tooDeep_sound {Form : Tokens → Expr → Prop} : Sound (tooDeep stop) Form :=
  fun _ _ _ h => nomatch h

private theorem primary_sound {d : Nat} {nested : ExprReader}
    (hn : Sound nested fun ts e => ∃ d', d = d' + 1 ∧ Derives .disjunction d' ts e) :
    Sound (primary stop nested) (Derives .operand d) := by
  intro ts e rest h
  cases ts with
  | nil => exact nomatch h
  | cons t ts =>
    obtain ⟨value, span⟩ := t
    rw [primary] at h
    dsimp only at h
    -- one case per token that an operand may begin with, in the order of the reader
    split at h
    · cases h; exact ⟨_, rfl, .true⟩
    · cases h; exact ⟨_, rfl, .false⟩
    · cases h; exact ⟨_, rfl, .filesize⟩
    · obtain ⟨used, rfl, hu⟩ := quantified_sound (t := ⟨.keyword .any, span⟩) .any h
      exact ⟨_, rfl, hu⟩
    · obtain ⟨used, rfl, hu⟩ := quantified_sound (t := ⟨.keyword .all, span⟩) .all h
      exact ⟨_, rfl, hu⟩
    · obtain ⟨used, rfl, hu⟩ := quantified_sound (t := ⟨.keyword .none, span⟩) .none h
      exact ⟨_, rfl, hu⟩
    · rename_i n
      split at h
      · split_ifs at h with hn
        obtain ⟨used, hused, hu⟩ :=
          quantified_sound (t := ⟨.integer n, span⟩) (.atLeast (Int.not_lt.mp hn)) h
        exact ⟨_, congrArg _ hused, hu⟩
      · cases h; exact ⟨_, rfl, .integer⟩
    · split_ifs at h with hname
      cases h
      exact ⟨_, rfl, .found fun he => hname (by simp [he])⟩
    · cases h; exact ⟨_, rfl, .count⟩
    · cases h; exact ⟨_, rfl, .rule⟩
    · rw [Outcome.bind_eq_ok] at h
      obtain ⟨⟨e', ts₁⟩, hinner, h⟩ := h
      rw [Outcome.bind_eq_ok] at h
      obtain ⟨⟨s₂, ts₂⟩, hright, h⟩ := h
      cases h
      rw [expectToken_eq_ok] at hright
      subst hright
      obtain ⟨used, rfl, d', rfl, hu⟩ := hn hinner
      exact ⟨⟨.leftParen, span⟩ :: (used ++ [⟨.rightParen, s₂⟩]), by simp, .parentheses hu⟩
    · exact nomatch h
    · exact nomatch h
    · exact absurd h expectedHere_ne_ok

private theorem comparison_sound {d : Nat} {nested : ExprReader}
    (hn : Sound nested fun ts e => ∃ d', d = d' + 1 ∧ Derives .disjunction d' ts e) :
    Sound (comparison stop nested) (Derives .comparison d) := by
  intro ts e rest h
  rw [comparison, Outcome.bind_eq_ok] at h
  obtain ⟨⟨left, ts₁⟩, hleft, h⟩ := h
  obtain ⟨used₁, rfl, hl⟩ := primary_sound hn hleft
  dsimp only at h
  split at h
  · rename_i t ts₂
    split at h
    · rename_i op hop
      rw [Outcome.bind_eq_ok] at h
      obtain ⟨⟨right, ts₃⟩, hright, h⟩ := h
      cases h
      obtain ⟨used₂, rfl, hr⟩ := primary_sound hn hright
      rw [comparisonSpan_eq]
      exact ⟨used₁ ++ t :: used₂, by simp, .compare hl (ofToken?_eq_some.mp hop) hr⟩
    · cases h; exact ⟨used₁, rfl, .alone hl⟩
  · cases h; exact ⟨used₁, rfl, .alone hl⟩

private theorem negation_sound {d : Nat} {negated nested : ExprReader}
    (hneg : Sound negated fun ts e => ∃ d', d = d' + 1 ∧ Derives .negation d' ts e)
    (hn : Sound nested fun ts e => ∃ d', d = d' + 1 ∧ Derives .disjunction d' ts e) :
    Sound (negation stop negated nested) (Derives .negation d) := by
  intro ts e rest h
  rw [negation.eq_def] at h
  split at h
  · rename_i s ts₁
    rw [Outcome.bind_eq_ok] at h
    obtain ⟨⟨inner, ts₂⟩, hinner, h⟩ := h
    cases h
    obtain ⟨used, rfl, d', rfl, hu⟩ := hneg hinner
    exact ⟨⟨.keyword .not, s⟩ :: used, rfl, .not hu⟩
  · obtain ⟨used, rfl, hu⟩ := comparison_sound hn h
    exact ⟨used, rfl, .plain hu⟩

/-- A chain of operands that an operator joins is of the form `Chain`, provided that one operand
is and that a chain may go on with the operator and another operand. -/
private theorem chainFrom_sound {operator : Keyword} {combine : Expr → Expr → Expr}
    {operand : ExprReader} {Operand Chain : Tokens → Expr → Prop}
    (hoperand : Sound operand Operand)
    (hmore : ∀ {ts us s l r}, Chain ts l → Operand us r →
      Chain (ts ++ ⟨.keyword operator, s⟩ :: us) (combine l r))
    {fuel : Nat} {before ts rest : Tokens} {left e : Expr} (hleft : Chain before left)
    (h : chainFrom operator combine operand fuel left ts = .ok (e, rest)) :
    ∃ used, ts = used ++ rest ∧ Chain (before ++ used) e := by
  -- what has been read is a chain already, and each turn appends to it
  induction fuel generalizing before left ts with
  | zero =>
    cases h
    exact ⟨[], rfl, by rwa [List.append_nil]⟩
  | succ fuel ih =>
    rw [chainFrom.eq_def] at h
    dsimp only at h
    split at h
    · rename_i t ts₁
      obtain ⟨value, s⟩ := t
      split_ifs at h with hvalue
      · cases (hvalue : value = .keyword operator)
        rw [Outcome.bind_eq_ok] at h
        obtain ⟨⟨right, ts₂⟩, hright, h⟩ := h
        obtain ⟨used₁, rfl, hr⟩ := hoperand hright
        obtain ⟨used₂, rfl, hu⟩ := ih (hmore hleft hr) h
        refine ⟨⟨.keyword operator, s⟩ :: (used₁ ++ used₂), by simp, ?_⟩
        rwa [List.append_assoc, List.cons_append] at hu
      · cases h
        exact ⟨[], rfl, by rwa [List.append_nil]⟩
    · cases h
      exact ⟨[], rfl, by rwa [List.append_nil]⟩

private theorem chain_sound {operator : Keyword} {combine : Expr → Expr → Expr}
    {operand : ExprReader} {Operand Chain : Tokens → Expr → Prop}
    (hoperand : Sound operand Operand) (hone : ∀ {ts e}, Operand ts e → Chain ts e)
    (hmore : ∀ {ts us s l r}, Chain ts l → Operand us r →
      Chain (ts ++ ⟨.keyword operator, s⟩ :: us) (combine l r)) :
    Sound (chain bound operator combine operand) Chain := by
  intro ts e rest h
  rw [chain, Outcome.bind_eq_ok] at h
  obtain ⟨⟨left, ts₁⟩, hleft, h⟩ := h
  obtain ⟨used₁, rfl, hl⟩ := hoperand hleft
  obtain ⟨used₂, rfl, hu⟩ := chainFrom_sound hoperand hmore (hone hl) h
  exact ⟨used₁ ++ used₂, (List.append_assoc ..).symm, hu⟩

private theorem disjunction_sound {d : Nat} {operand : ExprReader}
    (h : Sound operand (Derives .negation d)) :
    Sound (disjunction bound operand) (Derives .disjunction d) :=
  chain_sound (chain_sound h .conjunct .and) .disjunct .or

private theorem unary_sound (d : Nat) : Sound (unary stop bound d) (Derives .negation d) := by
  induction d with
  | zero => exact negation_sound tooDeep_sound tooDeep_sound
  | succ d ih =>
    refine negation_sound (fun ts e rest h => ?_) (fun ts e rest h => ?_)
    · obtain ⟨used, hused, hu⟩ := ih h
      exact ⟨used, hused, d, rfl, hu⟩
    · obtain ⟨used, hused, hu⟩ := disjunction_sound ih h
      exact ⟨used, hused, d, rfl, hu⟩

private theorem condition_sound :
    Sound (condition stop bound) (Derives .disjunction (Limits.conditionDepth - 1)) :=
  disjunction_sound (unary_sound _)

/-! ### Parts of rules -/

theorem hasModifier_cons (k k' : Keyword) (s : Span) (ts : Tokens) :
    hasModifier k (⟨.keyword k', s⟩ :: ts) = (decide (k' = k) || hasModifier k ts) := by
  rw [hasModifier, List.any_cons]
  simp [hasModifier, beq_eq_decide]

theorem ruleModifiers_sound {isPrivate isGlobal : Bool} {ts rest : Tokens}
    {found : Bool × Bool} (h : ruleModifiers isPrivate isGlobal ts = (found, rest)) :
    ∃ used, ts = used ++ rest ∧ (∀ t ∈ used, IsModifier t) ∧
      found = (isPrivate || hasModifier .private used, isGlobal || hasModifier .global used) := by
  fun_induction ruleModifiers isPrivate isGlobal ts with
  | case1 isGlobal' isPrivate' s ts ih =>
    obtain ⟨used, rfl, hused, rfl⟩ := ih h
    exact ⟨⟨.keyword .private, s⟩ :: used, rfl, List.forall_mem_cons.mpr ⟨Or.inl rfl, hused⟩,
      by rw [hasModifier_cons, hasModifier_cons]; simp⟩
  | case2 isPrivate' isGlobal' s ts ih =>
    obtain ⟨used, rfl, hused, rfl⟩ := ih h
    exact ⟨⟨.keyword .global, s⟩ :: used, rfl, List.forall_mem_cons.mpr ⟨Or.inr rfl, hused⟩,
      by rw [hasModifier_cons, hasModifier_cons]; simp⟩
  | case3 =>
    cases h
    exact ⟨[], rfl, by simp, by simp [hasModifier]⟩

theorem identifiers_sound {seen names : List String} {ts rest : Tokens}
    (h : identifiers seen ts = (names, rest)) :
    ∃ used listed, ts = used ++ rest ∧ names = seen.reverse ++ listed ∧
      Sequence TagForm used listed := by
  fun_induction identifiers seen ts with
  | case1 seen name s ts ih =>
    obtain ⟨used, listed, rfl, rfl, hu⟩ := ih h
    exact ⟨⟨.identifier name, s⟩ :: used, name :: listed, rfl, by simp, .cons .intro hu⟩
  | case2 =>
    cases h
    exact ⟨[], [], rfl, by simp, .nil⟩

private theorem tags_sound : Sound (tags stop) TagsForm := by
  intro ts names rest h
  rw [tags.eq_def] at h
  split at h
  · rename_i s ts₁
    split at h
    · exact absurd h expectedHere_ne_ok
    · rename_i hne hids
      cases h
      obtain ⟨used, listed, rfl, rfl, hu⟩ := identifiers_sound hids
      exact ⟨⟨.colon, s⟩ :: used, rfl, .present hu (by simpa using hne)⟩
  · cases h
    exact ⟨[], rfl, .absent⟩

theorem metaValue?_eq_some {t : Token} {value : MetaValue} :
    metaValue? t = some value ↔ MetaValueForm t value := by
  constructor
  · intro h
    rw [metaValue?.eq_def] at h
    split at h <;> cases h <;> constructor
  · rintro (_ | _) <;> rfl

private theorem metaEntries_sound {seen entries : List MetaEntry} {ts rest : Tokens}
    (h : metaEntries stop seen ts = .ok (entries, rest)) :
    ∃ used listed, ts = used ++ rest ∧ entries = seen.reverse ++ listed ∧
      Sequence MetaForm used listed := by
  fun_induction metaEntries stop seen ts with
  | case1 seen key s₁ s₂ t ts value hvalue ih =>
    obtain ⟨used, listed, rfl, rfl, hu⟩ := ih h
    exact ⟨⟨.identifier key, s₁⟩ :: ⟨.assign, s₂⟩ :: t :: used, _ :: listed, rfl, by simp,
      .cons (.intro (metaValue?_eq_some.mp hvalue)) hu⟩
  | case2 | case3 | case4 => exact absurd h expectedHere_ne_ok
  | case5 =>
    cases h
    exact ⟨[], [], rfl, by simp, .nil⟩

theorem stringValue?_eq_some {t : Token} {value : StringValue} :
    stringValue? t = some value ↔ StringValueForm t value := by
  constructor
  · intro h
    cases t <;> cases h <;> constructor
  · rintro (_ | _) <;> rfl

/-- A modifier sets its flag and widens the span. -/
theorem addModifier?_eq_some {decl decl' : StringDecl} {k : Keyword} {s : Span} :
    addModifier? decl k s = some decl' ↔ ∃ m, ModifierForm decl.modifiers k m ∧
      decl' = { decl with modifiers := m, span := decl.span.join s } := by
  constructor
  · intro h
    cases k <;> cases h <;> exact ⟨_, by constructor, rfl⟩
  · rintro ⟨m, (_ | _), rfl⟩ <;> rfl

/-- The declared strings: those read before are of the form already, and a modifier changes the
last of them. -/
private theorem stringDecls_sound {seen decls : List StringDecl} {before ts rest : Tokens}
    (hseen : Sequence StringForm before seen.reverse)
    (h : stringDecls stop seen ts = .ok (decls, rest)) :
    ∃ used, ts = used ++ rest ∧ Sequence StringForm (before ++ used) decls := by
  fun_induction stringDecls stop seen ts generalizing before with
  | case1 => exact nomatch h
  | case2 seen name s₁ hname s₂ t ts value hvalue ih =>
    have hform : StringForm [⟨.stringName name, s₁⟩, ⟨.assign, s₂⟩, t]
        ⟨name, value, {}, s₁.join t.span⟩ :=
      .value (fun he => hname (by simp [he])) (stringValue?_eq_some.mp hvalue)
    have hseen' : Sequence StringForm (before ++ [⟨.stringName name, s₁⟩, ⟨.assign, s₂⟩, t])
        (⟨name, value, {}, s₁.join t.span⟩ :: seen).reverse := by
      rw [List.reverse_cons]
      exact hseen.append (.single hform)
    obtain ⟨used, rfl, hu⟩ := ih hseen' h
    exact ⟨⟨.stringName name, s₁⟩ :: ⟨.assign, s₂⟩ :: t :: used, rfl, by simpa using hu⟩
  | case3 | case4 | case5 => exact absurd h expectedHere_ne_ok
  | case6 k s ts decl earlier decl' hmodifier ih =>
    obtain ⟨m, hm, rfl⟩ := addModifier?_eq_some.mp hmodifier
    rw [List.reverse_cons] at hseen
    obtain ⟨us, vs, rfl, hus, hvs⟩ := hseen.of_concat
    have hseen' : Sequence StringForm (us ++ vs ++ [⟨.keyword k, s⟩])
        ({ decl with modifiers := m, span := decl.span.join s } :: earlier).reverse := by
      rw [List.reverse_cons, List.append_assoc]
      exact hus.append (.single (.modified hvs hm))
    obtain ⟨used, rfl, hu⟩ := ih hseen' h
    exact ⟨⟨.keyword k, s⟩ :: used, rfl, by simpa using hu⟩
  | case7 | case8 | case9 =>
    cases h
    exact ⟨[], rfl, by rwa [List.append_nil]⟩

private theorem stringSection_sound : Sound (stringSection stop) StringsBody := by
  intro ts decls rest h
  rw [stringSection, Outcome.bind_eq_ok] at h
  obtain ⟨⟨decls', ts₁⟩, hdecls, h⟩ := h
  obtain ⟨used, rfl, hu⟩ := stringDecls_sound (Sequence.nil : Sequence StringForm [] []) hdecls
  cases decls' with
  | nil => exact absurd h expectedHere_ne_ok
  | cons decl decls' =>
    cases h
    exact ⟨used, rfl, hu, List.cons_ne_nil _ _⟩

private theorem conditionSection_sound : Sound (conditionSection stop bound) ConditionBody := by
  intro ts condition rest h
  rw [conditionSection, Outcome.bind_eq_ok] at h
  obtain ⟨⟨e, ts₁⟩, he, h⟩ := h
  cases h
  obtain ⟨used, rfl, hu⟩ := condition_sound he
  exact ⟨used, rfl, e, rfl, hu⟩

private theorem sectionOf_sound {α : Type} {k : Keyword} {absent : α}
    {body : Tokens → Outcome (α × Tokens)} {Body : Tokens → α → Prop} (hbody : Sound body Body) :
    Sound (sectionOf stop k absent body) (SectionForm k absent Body) := by
  intro ts a rest h
  cases ts with
  | nil =>
    cases h
    exact ⟨[], rfl, .absent⟩
  | cons t ts =>
    obtain ⟨value, s₁⟩ := t
    rw [sectionOf] at h
    split_ifs at h with hk
    · cases (hk : value = .keyword k)
      rw [Outcome.bind_eq_ok] at h
      obtain ⟨⟨s₂, ts₁⟩, hcolon, h⟩ := h
      rw [expectToken_eq_ok] at hcolon
      subst hcolon
      obtain ⟨used, rfl, hu⟩ := hbody h
      exact ⟨⟨.keyword k, s₁⟩ :: ⟨.colon, s₂⟩ :: used, rfl, .present hu⟩
    · cases h
      exact ⟨[], rfl, .absent⟩

theorem ruleName_eq_ok {ts rest : Tokens} {name : String} {span : Span} :
    ruleName stop ts = .ok ((name, span), rest) ↔ ts = ⟨.identifier name, span⟩ :: rest := by
  constructor
  · intro h
    rw [ruleName.eq_def] at h
    split at h
    · cases h
      rfl
    · exact absurd h expectedHere_ne_ok
  · rintro rfl
    rfl

/-! ### Rules -/

/-- The first token of a rule is a modifier or the word itself. -/
theorem spanHere_append (modifiers rest : Tokens) (word : Span) :
    spanHere stop (modifiers ++ ⟨.keyword .rule, word⟩ :: rest) = startSpan modifiers word := by
  cases modifiers <;> rfl

private theorem rule_sound : Sound (rule stop bound) RuleForm := by
  intro ts decl rest h
  rw [rule] at h
  rcases hm : ruleModifiers false false ts with ⟨⟨isPrivate, isGlobal⟩, ts₀⟩
  obtain ⟨modifiers, rfl, hmodifiers, hflags⟩ := ruleModifiers_sound hm
  rw [hm] at h
  simp only [Bool.false_or, Prod.mk.injEq] at hflags
  obtain ⟨rfl, rfl⟩ := hflags
  rw [Outcome.bind_eq_ok] at h
  obtain ⟨⟨word, ts₁⟩, hword, h⟩ := h
  rw [Outcome.bind_eq_ok] at h
  obtain ⟨⟨⟨name, nameSpan⟩, ts₂⟩, hname, h⟩ := h
  rw [Outcome.bind_eq_ok] at h
  obtain ⟨⟨tags, ts₃⟩, htags, h⟩ := h
  rw [Outcome.bind_eq_ok] at h
  obtain ⟨⟨left, ts₄⟩, hleft, h⟩ := h
  rw [Outcome.bind_eq_ok] at h
  obtain ⟨⟨entries, ts₅⟩, hmeta, h⟩ := h
  rw [Outcome.bind_eq_ok] at h
  obtain ⟨⟨strings, ts₆⟩, hstrings, h⟩ := h
  rw [Outcome.bind_eq_ok] at h
  obtain ⟨⟨condition, ts₇⟩, hcondition, h⟩ := h
  rw [Outcome.bind_eq_ok] at h
  obtain ⟨⟨right, ts₈⟩, hright, h⟩ := h
  cases h
  rw [expectKeyword_eq_ok] at hword
  rw [ruleName_eq_ok] at hname
  rw [expectToken_eq_ok] at hleft hright
  subst hword hname
  obtain ⟨tagTokens, rfl, htagForm⟩ := tags_sound htags
  subst hleft
  have hmetaSound : Sound (metaEntries stop []) (Sequence MetaForm) := fun ts a rest h => by
    obtain ⟨used, listed, rfl, rfl, hu⟩ := metaEntries_sound h
    exact ⟨used, rfl, hu⟩
  obtain ⟨metaTokens, rfl, hmetaForm⟩ := sectionOf_sound hmetaSound hmeta
  obtain ⟨stringTokens, rfl, hstringForm⟩ := sectionOf_sound stringSection_sound hstrings
  obtain ⟨conditionTokens, rfl, hconditionForm⟩ :=
    sectionOf_sound conditionSection_sound hcondition
  subst hright
  rw [spanHere_append]
  exact ⟨modifiers ++ ⟨.keyword .rule, word⟩ :: ⟨.identifier name, nameSpan⟩ ::
      (tagTokens ++ ⟨.leftBrace, left⟩ ::
        (metaTokens ++ (stringTokens ++ (conditionTokens ++ [⟨.rightBrace, right⟩])))),
    by simp, .intro hmodifiers htagForm hmetaForm hstringForm hconditionForm⟩

private theorem rulesFrom_sound {fuel : Nat} {seen rules : List RuleDecl} {ts : Tokens}
    (hfuel : ts.length ≤ fuel) (h : rulesFrom stop bound fuel seen ts = .ok rules) :
    ∃ listed, rules = seen.reverse ++ listed ∧ SourceForm ts listed := by
  induction fuel generalizing seen ts with
  | zero =>
    rw [List.length_eq_zero_iff.mp (Nat.le_zero.mp hfuel)] at h ⊢
    cases h
    exact ⟨[], by simp, .nil⟩
  | succ fuel ih =>
    cases ts with
    | nil =>
      cases h
      exact ⟨[], by simp, .nil⟩
    | cons t ts =>
      rw [rulesFrom, Outcome.bind_eq_ok] at h
      obtain ⟨⟨decl, rest⟩, hdecl, h⟩ := h
      obtain ⟨used, hused, hu⟩ := rule_sound hdecl
      -- a rule takes a token at least, so the number of tokens bounds that of the rules
      have hlength : rest.length ≤ fuel := by
        obtain ⟨us, s, rfl⟩ := hu.exists_getLast
        have := congrArg List.length hused
        simp only [List.length_cons, List.length_append, List.length_nil] at this hfuel
        omega
      obtain ⟨listed, rfl, hl⟩ := ih hlength h
      exact ⟨decl :: listed, by simp, hused ▸ .cons hu hl⟩

/-- **Soundness.** The tokens of a source derive the rules that are read from them. -/
theorem sourceForm_of_parse {ts : TokenStream} {rules : List RuleDecl}
    (h : parse ts = .ok rules) : SourceForm ts.tokens rules := by
  obtain ⟨listed, rfl, hl⟩ := rulesFrom_sound (Nat.le_refl _) h
  exact hl

end Parser

end PackageScan
