import PackageScan.Proofs.Rule.ParserSound

/-!
# What has the form of the grammar is read

The converse of soundness. Tokens that derive something are read as it whatever comes after them,
as long as that does not go on with what has been read: each form has a condition on the token
that follows it (`Parser.Follows`), and a condition is looser the more a form can go on with.

* **Conditions** are read by an induction over their derivation (`Parser.parsed_of_derives`). The
  reader takes a chain of operators from the left and the derivation takes it apart from the
  right, so what is said about a chain is that reading its first part leaves the loop where it
  goes on (`Parser.ReadsChain`).
* **Rules** are read section by section, and every section begins with a word of its own.

The loops have enough fuel because every turn takes a token. With soundness, the readers do
exactly what the grammar says (`Parser.parse_eq_ok`).
-/

namespace PackageScan

namespace Parser

open Grammar

variable {stop : Position} {bound : Nat}

/-! ### What may follow -/

/-- The token that comes next, if there is one, satisfies `P`. -/
def Follows (P : Token → Prop) (rest : Tokens) : Prop := ∀ t, rest.head? = some t → P t.value

private theorem follows_cons {P : Token → Prop} {t : Located Token} {rest : Tokens} :
    Follows P (t :: rest) ↔ P t.value :=
  ⟨fun h => h t rfl, fun h _ ht => Option.some.inj ht ▸ h⟩

/-- An operand does not go on: an integer is not the number of a set of strings. -/
def AfterOperand (t : Token) : Prop := t ≠ .keyword .of

/-- A comparison does not go on: no operator follows. -/
def AfterComparison (t : Token) : Prop := AfterOperand t ∧ Comparison.ofToken? t = none

/-- A conjunction does not go on. -/
def AfterConjunction (t : Token) : Prop := AfterComparison t ∧ t ≠ .keyword .and

/-- A condition does not go on. -/
def AfterCondition (t : Token) : Prop := AfterConjunction t ∧ t ≠ .keyword .or

private theorem afterComparison_keyword {k : Keyword} (h : k ≠ .of) :
    AfterComparison (.keyword k) :=
  ⟨fun he => h (Token.keyword.inj he), rfl⟩

private theorem afterCondition_rightParen : AfterCondition .rightParen :=
  ⟨⟨⟨nofun, rfl⟩, nofun⟩, nofun⟩

private theorem afterCondition_rightBrace : AfterCondition .rightBrace :=
  ⟨⟨⟨nofun, rfl⟩, nofun⟩, nofun⟩

/-! ### Readers of conditions -/

/-- Reads what stands in parentheses inside a condition with so much depth left. -/
def nestedReader (stop : Position) (bound : Nat) : Nat → ExprReader
  | 0 => tooDeep stop
  | d + 1 => disjunction bound (unary stop bound d)

/-- Reads what is negated inside a condition with so much depth left. -/
def negatedReader (stop : Position) (bound : Nat) : Nat → ExprReader
  | 0 => tooDeep stop
  | d + 1 => unary stop bound d

private theorem unary_eq (d : Nat) :
    unary stop bound d =
      negation stop (negatedReader stop bound d) (nestedReader stop bound d) := by
  cases d <;> rfl

/-- The reader reads the tokens as what is given, whatever may follow them. -/
def Reads {α : Type} (reader : Tokens → Outcome (α × Tokens)) (After : Token → Prop)
    (ts : Tokens) (a : α) : Prop :=
  ∀ rest, Follows After rest → reader (ts ++ rest) = .ok (a, rest)

/-- Reading the tokens as a chain leaves the loop with the expression, after a number of turns
that is less than the number of tokens. -/
def ReadsChain (operator : Keyword) (combine : Expr → Expr → Expr) (operand : ExprReader)
    (After : Token → Prop) (ts : Tokens) (e : Expr) : Prop :=
  ∃ n < ts.length, ∀ fuel rest, Follows After rest →
    (do
      let (left, rest) ← operand (ts ++ rest)
      chainFrom operator combine operand (fuel + n) left rest) =
    chainFrom operator combine operand fuel e rest

section Chains

variable {operator : Keyword} {combine : Expr → Expr → Expr} {operand : ExprReader}
  {After : Token → Prop} {ts us : Tokens} {e l r : Expr}

theorem ReadsChain.one (h : Reads operand After ts e) (hts : ts ≠ []) :
    ReadsChain operator combine operand After ts e := by
  refine ⟨0, List.length_pos_iff.mpr hts, fun fuel rest hrest => ?_⟩
  rw [h rest hrest]
  rfl

/-- A chain goes on with an operator and an operand: one turn more. -/
theorem ReadsChain.more {s : Span} (hl : ReadsChain operator combine operand After ts l)
    (hoperator : After (.keyword operator)) (hr : Reads operand After us r) :
    ReadsChain operator combine operand After (ts ++ ⟨.keyword operator, s⟩ :: us)
      (combine l r) := by
  obtain ⟨n, hn, hl⟩ := hl
  refine ⟨n + 1, by simp only [List.length_append, List.length_cons]; omega,
    fun fuel rest hrest => ?_⟩
  have hstep := hl (fuel + 1) (⟨.keyword operator, s⟩ :: (us ++ rest)) (follows_cons.mpr hoperator)
  rw [show fuel + 1 + n = fuel + (n + 1) by omega] at hstep
  rw [List.append_assoc, List.cons_append, hstep, chainFrom.eq_def]
  dsimp only
  rw [if_pos rfl, hr rest hrest]
  rfl

/-- A loop stops where no operator follows. -/
private theorem chainFrom_stop {fuel : Nat} {rest : Tokens}
    (h : Follows (· ≠ .keyword operator) rest) :
    chainFrom operator combine operand fuel e rest = .ok (e, rest) := by
  cases fuel with
  | zero => rfl
  | succ fuel =>
    cases rest with
    | nil => rfl
    | cons t rest => exact if_neg (follows_cons.mp h)

theorem ReadsChain.reads (h : ReadsChain operator combine operand After ts e)
    (hbound : ts.length ≤ bound) :
    Reads (chain bound operator combine operand) (fun t => After t ∧ t ≠ .keyword operator) ts
      e := by
  intro rest hrest
  obtain ⟨n, hn, h⟩ := h
  have hstep := h (bound - n) rest fun t ht => (hrest t ht).1
  rw [show bound - n + n = bound by omega] at hstep
  exact hstep.trans (chainFrom_stop fun t ht => (hrest t ht).2)

end Chains

/-! ### Conditions -/

private theorem setItems_complete {ts rest : Tokens} {items seen : List SetItem} {s : Span}
    (h : ItemsForm ts items) :
    setItems stop seen (ts ++ ⟨.rightParen, s⟩ :: rest) =
      .ok (seen.reverse ++ items, ⟨.rightParen, s⟩ :: rest) := by
  induction h generalizing seen with
  | one hitem =>
    rw [List.singleton_append, setItems_cons, item?_eq_some.mpr hitem]
    simp
  | more hitem _ ih =>
    rw [List.cons_append, List.cons_append, setItems_cons, item?_eq_some.mpr hitem]
    dsimp only
    rw [ih]
    simp

private theorem quantified_them {q : Quantifier} {start s₁ s₂ : Span} {rest : Tokens} :
    quantified stop q start (⟨.keyword .of, s₁⟩ :: ⟨.keyword .them, s₂⟩ :: rest) =
      .ok (.ofSet q .them (start.join s₂), rest) := rfl

private theorem quantified_items {q : Quantifier} {start s₁ s₂ s₃ : Span} {ts rest : Tokens}
    {items : List SetItem} (h : ItemsForm ts items) :
    quantified stop q start (⟨.keyword .of, s₁⟩ :: ⟨.leftParen, s₂⟩ ::
        (ts ++ ⟨.rightParen, s₃⟩ :: rest)) =
      .ok (.ofSet q (.items items) (start.join s₃), rest) := by
  rw [quantified, Outcome.bind_eq_ok]
  refine ⟨(s₁, _), expectKeyword_eq_ok.mpr rfl, ?_⟩
  dsimp only
  rw [Outcome.bind_eq_ok]
  refine ⟨(s₂, _), expectToken_eq_ok.mpr rfl, ?_⟩
  dsimp only
  rw [setItems_complete h, Outcome.ok_bind]
  dsimp only
  rw [Outcome.bind_eq_ok]
  exact ⟨(s₃, rest), expectToken_eq_ok.mpr rfl, rfl⟩

/-- A quantifier is read as one where `of` follows. -/
private theorem primary_quantifier {nested : ExprReader} {t : Located Token} {q : Quantifier}
    {s : Span} {rest : Tokens} (h : QuantifierForm t.value q) :
    primary stop nested (t :: ⟨.keyword .of, s⟩ :: rest) =
      quantified stop q t.span (⟨.keyword .of, s⟩ :: rest) := by
  obtain ⟨value, span⟩ := t
  cases h with
  | any | all | none => rfl
  | atLeast hn => exact if_neg (Int.not_lt.mpr hn)

/-- An integer stands for itself where no `of` follows. -/
private theorem primary_integer {nested : ExprReader} {n : Int} {s : Span} {rest : Tokens}
    (h : Follows AfterOperand rest) :
    primary stop nested (⟨.integer n, s⟩ :: rest) = .ok (.int n, rest) := by
  rw [primary]
  dsimp only
  split
  · exact absurd rfl (follows_cons.mp h)
  · rfl

private theorem comparison_alone {nested : ExprReader} {ts : Tokens} {e : Expr}
    (h : Reads (primary stop nested) AfterOperand ts e) :
    Reads (comparison stop nested) AfterComparison ts e := by
  intro rest hrest
  rw [comparison, h rest fun t ht => (hrest t ht).1, Outcome.ok_bind]
  dsimp only
  cases rest with
  | nil => rfl
  | cons t rest =>
    dsimp only
    rw [(follows_cons.mp hrest).2]

private theorem comparison_compare {nested : ExprReader} {ts us : Tokens} {t : Located Token}
    {op : Comparison} {l r : Expr} (hl : Reads (primary stop nested) AfterOperand ts l)
    (hop : OperatorForm t.value op)
    (hr : Reads (primary stop nested) AfterOperand us r) :
    Reads (comparison stop nested) AfterComparison (ts ++ t :: us)
      (.compare op l r (Grammar.comparisonSpan t.span l r)) := by
  intro rest hrest
  have hoperator : Follows AfterOperand (t :: (us ++ rest)) :=
    follows_cons.mpr fun h => by rw [h] at hop; exact nomatch hop
  rw [List.append_assoc, List.cons_append, comparison, hl _ hoperator, Outcome.ok_bind]
  dsimp only
  rw [ofToken?_eq_some.mpr hop, ← comparisonSpan_eq]
  dsimp only
  rw [hr rest fun t ht => (hrest t ht).1]
  rfl

private theorem negation_plain {negated nested : ExprReader} {ts : Tokens} {e : Expr}
    (hts : ∃ t us, ts = t :: us ∧ t.value ≠ .keyword .not)
    (h : Reads (comparison stop nested) AfterComparison ts e) :
    Reads (negation stop negated nested) AfterComparison ts e := by
  intro rest hrest
  obtain ⟨⟨value, s⟩, us, rfl, hvalue⟩ := hts
  rw [negation.eq_def]
  split
  · rename_i heq
    exact absurd (congrArg (fun ts => (ts.head?.map Located.value)) heq) (by simpa using hvalue)
  · exact h rest hrest

/-- What a derivation of each level says about the reader of that level. -/
def Parsed (stop : Position) (bound : Nat) : Grammar.Level → Nat → Tokens → Expr → Prop
  | .operand, d => Reads (primary stop (nestedReader stop bound d)) AfterOperand
  | .comparison, d => Reads (comparison stop (nestedReader stop bound d)) AfterComparison
  | .negation, d => Reads (unary stop bound d) AfterComparison
  | .conjunction, d => ReadsChain .and .and (unary stop bound d) AfterComparison
  | .disjunction, d =>
    ReadsChain .or .or (chain bound .and .and (unary stop bound d)) AfterConjunction

theorem parsed_of_derives {level : Grammar.Level} {d : Nat} {ts : Tokens} {e : Expr}
    (h : Derives level d ts e) (hbound : ts.length ≤ bound) : Parsed stop bound level d ts e := by
  -- parts of a derivation have fewer tokens, so the bound of the loops is enough for them too
  induction h with
  | true | false | filesize | count | rule => exact fun rest _ => rfl
  | integer => exact fun rest hrest => primary_integer hrest
  | found hname => exact fun rest _ => if_neg (by simpa using hname)
  | ofThem hq => exact fun rest _ => (primary_quantifier hq).trans quantified_them
  | ofItems hq hi =>
    intro rest _
    simp only [List.cons_append, List.append_assoc, List.nil_append]
    exact (primary_quantifier hq).trans (quantified_items hi)
  | @parentheses d ts e s₁ s₂ h ih =>
    intro rest _
    have hshorter : ts.length ≤ bound := by
      simp only [List.length_cons, List.length_append] at hbound
      omega
    have hinner := ReadsChain.reads (ih hshorter) hshorter (⟨.rightParen, s₂⟩ :: rest)
      (follows_cons.mpr afterCondition_rightParen)
    simp only [List.cons_append, List.append_assoc, List.nil_append]
    rw [primary]
    dsimp only
    rw [show nestedReader stop bound (d + 1) = disjunction bound (unary stop bound d) from rfl,
      disjunction, hinner, Outcome.ok_bind]
    dsimp only
    rw [Outcome.bind_eq_ok]
    exact ⟨(s₂, rest), expectToken_eq_ok.mpr rfl, rfl⟩
  | alone _ ih => exact comparison_alone (ih hbound)
  | compare _ hop _ ihl ihr =>
    simp only [List.length_cons, List.length_append] at hbound
    exact comparison_compare (ihl (by omega)) hop (ihr (by omega))
  | @not d ts e s _ ih =>
    intro rest hrest
    rw [List.length_cons] at hbound
    rw [List.cons_append, unary_eq, negation,
      show negatedReader stop bound (d + 1) = unary stop bound d from rfl,
      ih (by omega) rest hrest]
    rfl
  | plain h ih =>
    obtain ⟨t, us, hts, ht⟩ := h.exists_cons
    intro rest hrest
    rw [unary_eq]
    exact negation_plain ⟨t, us, hts, ht (Or.inr rfl)⟩ (ih hbound) rest hrest
  | conjunct h ih => exact .one (ih hbound) h.ne_nil
  | and _ _ ihl ihr =>
    simp only [List.length_cons, List.length_append] at hbound
    exact (ihl (by omega)).more (afterComparison_keyword (by decide)) (ihr (by omega))
  | disjunct h ih => exact .one (ReadsChain.reads (ih hbound) hbound) h.ne_nil
  | or _ h ihl ihr =>
    simp only [List.length_cons, List.length_append] at hbound
    exact (ihl (by omega)).more ⟨afterComparison_keyword (by decide), by decide⟩
      (ReadsChain.reads (ihr (by omega)) (by omega))

/-- **Conditions are read.** -/
theorem condition_complete {ts : Tokens} {e : Expr}
    (h : Derives .disjunction (Limits.conditionDepth - 1) ts e) (hbound : ts.length ≤ bound) :
    Reads (condition stop bound) AfterCondition ts e :=
  ReadsChain.reads (parsed_of_derives h hbound) hbound

/-! ### Parts of rules -/

theorem ruleModifiers_complete {ts rest : Tokens} (h : ∀ t ∈ ts, IsModifier t)
    (isPrivate isGlobal : Bool) {word : Span} :
    ruleModifiers isPrivate isGlobal (ts ++ ⟨.keyword .rule, word⟩ :: rest) =
      ((isPrivate || hasModifier .private ts, isGlobal || hasModifier .global ts),
        ⟨.keyword .rule, word⟩ :: rest) := by
  induction ts generalizing isPrivate isGlobal with
  | nil => simp [ruleModifiers, hasModifier]
  | cons t ts ih =>
    obtain ⟨ht, hts⟩ := List.forall_mem_cons.mp h
    obtain ⟨value, s⟩ := t
    rcases ht with rfl | rfl
    all_goals
      rw [List.cons_append, ruleModifiers, ih hts, hasModifier_cons, hasModifier_cons]
      simp

/-- Neither tags nor meta entries go on. -/
def NotName (t : Token) : Prop := ∀ name, t ≠ .identifier name

/-- What may come after the strings of a rule. -/
def AfterStrings (t : Token) : Prop := t = .keyword .condition ∨ t = .rightBrace

/-- What may come after the meta entries of a rule. -/
def AfterMeta (t : Token) : Prop := t = .keyword .strings ∨ AfterStrings t

private theorem AfterMeta.notName {t : Token} (h : AfterMeta t) : NotName t := by
  rcases h with rfl | rfl | rfl <;> exact fun _ => nofun

private theorem identifiers_complete {ts rest : Tokens} {names : List String}
    (h : Sequence TagForm ts names) (hrest : Follows NotName rest) (seen : List String) :
    identifiers seen (ts ++ rest) = (seen.reverse ++ names, rest) := by
  induction h generalizing seen with
  | nil =>
    rw [List.nil_append, List.append_nil, identifiers.eq_def]
    split
    · exact absurd rfl (follows_cons.mp hrest _)
    · rfl
  | cons ht _ ih =>
    cases ht
    rw [List.append_assoc, List.singleton_append, identifiers, ih]
    simp

private theorem tags_complete {ts : Tokens} {names : List String} (h : TagsForm ts names) :
    Reads (tags stop) (· = .leftBrace) ts names := by
  intro rest hrest
  cases h with
  | absent =>
    rw [List.nil_append, tags.eq_def]
    split
    · cases follows_cons.mp hrest
    · rfl
  | @present s ts _ hts hne =>
    have hstop : Follows NotName rest := fun t ht name => by
      rw [hrest t ht]
      rintro ⟨⟩
    have hnames := identifiers_complete hts hstop []
    rw [List.cons_append, tags, hnames]
    split
    · rename_i heq
      exact absurd (congrArg Prod.fst heq) (by simpa using hne)
    · rename_i heq
      cases heq
      rfl

private theorem metaEntries_complete {ts rest : Tokens} {entries : List MetaEntry}
    (h : Sequence MetaForm ts entries) (hrest : Follows NotName rest) (seen : List MetaEntry) :
    metaEntries stop seen (ts ++ rest) = .ok (seen.reverse ++ entries, rest) := by
  induction h generalizing seen with
  | nil =>
    rw [List.nil_append, List.append_nil, metaEntries.eq_def]
    split
    · exact absurd rfl (follows_cons.mp hrest _)
    · rfl
  | cons ht _ ih =>
    cases ht with
    | intro hvalue =>
      rw [List.append_assoc, List.cons_append, List.cons_append, List.singleton_append,
        metaEntries]
      rw [metaValue?_eq_some.mpr hvalue]
      dsimp only
      rw [ih]
      simp

/-- After its name and value, a string with its modifiers is the last that has been read. -/
private theorem stringDecls_stringForm {ts rest : Tokens} {decl : StringDecl}
    (h : StringForm ts decl)
    (seen : List StringDecl) :
    stringDecls stop seen (ts ++ rest) = stringDecls stop (decl :: seen) rest := by
  induction h generalizing rest with
  | value hname hvalue =>
    rw [List.cons_append, List.cons_append, List.singleton_append, stringDecls]
    rw [if_neg (by simpa using hname), stringValue?_eq_some.mpr hvalue]
  | modified _ hmodifier ih =>
    rw [List.append_assoc, ih, List.singleton_append, stringDecls]
    rw [addModifier?_eq_some.mpr ⟨_, hmodifier, rfl⟩]

private theorem stringDecls_complete {ts rest : Tokens} {decls : List StringDecl}
    (h : Sequence StringForm ts decls) (hrest : Follows AfterStrings rest)
    (seen : List StringDecl) :
    stringDecls stop seen (ts ++ rest) = .ok (seen.reverse ++ decls, rest) := by
  induction h generalizing seen with
  | nil =>
    rw [List.nil_append, List.append_nil]
    cases rest with
    | nil => rfl
    | cons t rest =>
      obtain ⟨value, s⟩ := t
      rcases follows_cons.mp hrest with rfl | rfl
      · cases seen <;> rfl
      · rfl
  | cons ht _ ih =>
    rw [List.append_assoc, stringDecls_stringForm ht, ih]
    simp

private theorem stringSection_complete {ts : Tokens} {decls : List StringDecl}
    (h : StringsBody ts decls) : Reads (stringSection stop) AfterStrings ts decls := by
  intro rest hrest
  rw [stringSection, stringDecls_complete h.1 hrest, Outcome.ok_bind]
  split
  · rename_i heq
    exact absurd (congrArg Prod.fst heq) (by simpa using h.2)
  · rename_i heq
    cases heq
    rfl

private theorem conditionSection_complete {ts : Tokens} {condition : Option Expr}
    (h : ConditionBody ts condition) (hbound : ts.length ≤ bound) :
    Reads (conditionSection stop bound) (· = .rightBrace) ts condition := by
  obtain ⟨e, rfl, he⟩ := h
  intro rest hrest
  have hafter : Follows AfterCondition rest := fun t ht => hrest t ht ▸ afterCondition_rightBrace
  rw [conditionSection, condition_complete he hbound rest hafter]
  rfl

/-! ### Sections -/

section Sections

variable {α : Type} {k : Keyword} {absent a : α} {Body : Tokens → α → Prop} {ts : Tokens}

/-- A section is read where its body is, if its word cannot come after it. -/
private theorem sectionOf_complete {body : Tokens → Outcome (α × Tokens)} {After : Token → Prop}
    (hword : ¬ After (.keyword k))
    (hbody : ∀ us, us.length ≤ ts.length → Body us a → Reads body After us a)
    (h : SectionForm k absent Body ts a) :
    Reads (sectionOf stop k absent body) After ts a := by
  intro rest hrest
  cases h with
  | absent =>
    cases rest with
    | nil => rfl
    | cons t rest =>
      have hne : t.value ≠ .keyword k := fun ht => hword (ht ▸ follows_cons.mp hrest)
      exact if_neg hne
  | @present s₁ s₂ us _ hus =>
    have hlength : us.length ≤ (⟨.keyword k, s₁⟩ :: ⟨.colon, s₂⟩ :: us : Tokens).length := by
      simp only [List.length_cons]
      omega
    rw [List.cons_append, List.cons_append, sectionOf, if_pos rfl, Outcome.bind_eq_ok]
    exact ⟨(s₂, us ++ rest), expectToken_eq_ok.mpr rfl, hbody us hlength hus rest hrest⟩

/-- Next comes the word of a section or what comes after the section. -/
private theorem follows_sectionForm {P : Token → Prop} {rest : Tokens}
    (h : SectionForm k absent Body ts a) (hword : P (.keyword k)) (hrest : Follows P rest) :
    Follows P (ts ++ rest) := by
  cases h with
  | absent => exact hrest
  | present => exact follows_cons.mpr hword

end Sections

private theorem metaSection_reads {ts : Tokens} {entries : List MetaEntry}
    (h : SectionForm .meta [] (Sequence MetaForm) ts entries) :
    Reads (sectionOf stop .meta [] (metaEntries stop [])) AfterMeta ts entries := by
  refine sectionOf_complete (by simp [AfterMeta, AfterStrings]) (fun us _ hus rest hrest => ?_) h
  exact metaEntries_complete hus (fun t ht => (hrest t ht).notName) []

private theorem stringsSection_reads {ts : Tokens} {decls : List StringDecl}
    (h : SectionForm .strings [] StringsBody ts decls) :
    Reads (sectionOf stop .strings [] (stringSection stop)) AfterStrings ts decls :=
  sectionOf_complete (by simp [AfterStrings]) (fun _ _ hus => stringSection_complete hus) h

private theorem conditionSection_reads {ts : Tokens} {condition : Option Expr}
    (h : SectionForm .condition none ConditionBody ts condition) (hbound : ts.length ≤ bound) :
    Reads (sectionOf stop .condition none (conditionSection stop bound)) (· = .rightBrace) ts
      condition := by
  refine sectionOf_complete (by simp) (fun us hlength hus => ?_) h
  exact conditionSection_complete hus (Nat.le_trans hlength hbound)

/-! ### Rules -/

private theorem rule_complete {ts : Tokens} {decl : RuleDecl} (h : RuleForm ts decl)
    (hbound : ts.length ≤ bound) (rest : Tokens) :
    rule stop bound (ts ++ rest) = .ok (decl, rest) := by
  cases h with
  | @intro modifiers tagTokens metaTokens stringTokens conditionTokens word nameSpan left right
      name tags entries strings condition hmodifiers htags hmeta hstrings hcondition =>
    have hlength : conditionTokens.length ≤ bound := by
      simp only [List.length_append, List.length_cons] at hbound
      omega
    -- what stands after each section, from the last one backwards
    have hright : Follows (· = .rightBrace) (⟨.rightBrace, right⟩ :: rest) :=
      follows_cons.mpr rfl
    have hafterStrings : Follows AfterStrings
        (conditionTokens ++ ⟨.rightBrace, right⟩ :: rest) :=
      follows_sectionForm hcondition (Or.inl rfl) fun t ht => Or.inr (hright t ht)
    have hafterMeta : Follows AfterMeta
        (stringTokens ++ (conditionTokens ++ ⟨.rightBrace, right⟩ :: rest)) :=
      follows_sectionForm hstrings (Or.inl rfl) fun t ht => Or.inr (hafterStrings t ht)
    simp only [List.append_assoc, List.cons_append, List.nil_append]
    rw [rule, ruleModifiers_complete hmodifiers, spanHere_append, Bool.false_or, Bool.false_or]
    refine Outcome.bind_eq_ok.mpr ⟨(word, _), expectKeyword_eq_ok.mpr rfl, ?_⟩
    refine Outcome.bind_eq_ok.mpr ⟨((name, nameSpan), _), ruleName_eq_ok.mpr rfl, ?_⟩
    refine Outcome.bind_eq_ok.mpr
      ⟨(tags, _), tags_complete htags _ (follows_cons.mpr rfl), ?_⟩
    refine Outcome.bind_eq_ok.mpr ⟨(left, _), expectToken_eq_ok.mpr rfl, ?_⟩
    refine Outcome.bind_eq_ok.mpr ⟨(entries, _), metaSection_reads hmeta _ hafterMeta, ?_⟩
    refine Outcome.bind_eq_ok.mpr
      ⟨(strings, _), stringsSection_reads hstrings _ hafterStrings, ?_⟩
    refine Outcome.bind_eq_ok.mpr
      ⟨(condition, _), conditionSection_reads hcondition hlength _ hright, ?_⟩
    exact Outcome.bind_eq_ok.mpr ⟨(right, rest), expectToken_eq_ok.mpr rfl, rfl⟩

private theorem rulesFrom_complete {fuel : Nat} {seen rules : List RuleDecl} {ts : Tokens}
    (h : SourceForm ts rules) (hbound : ts.length ≤ bound) (hfuel : ts.length ≤ fuel) :
    rulesFrom stop bound fuel seen ts = .ok (seen.reverse ++ rules) := by
  induction h generalizing fuel seen with
  | nil => cases fuel <;> simp [rulesFrom]
  | @cons ts us decl rules hdecl _ ih =>
    rw [List.length_append] at hbound hfuel
    have hts : ts.length ≤ bound := by omega
    -- a rule has a token, which pays for the turn that reads it
    cases ts with
    | nil =>
      obtain ⟨vs, s, hvs⟩ := hdecl.exists_getLast
      exact absurd hvs.symm (List.append_ne_nil_of_right_ne_nil vs (List.cons_ne_nil _ _))
    | cons t ts =>
      rw [List.length_cons] at hbound hfuel
      obtain ⟨fuel, rfl⟩ : ∃ n, fuel = n + 1 := ⟨fuel - 1, by omega⟩
      rw [List.cons_append, rulesFrom, ← List.cons_append, rule_complete hdecl hts,
        Outcome.ok_bind]
      dsimp only
      rw [ih (by omega) (by omega), List.reverse_cons, List.append_assoc, List.singleton_append]

/-- **Completeness.** Tokens that have the form of rules are read as these. -/
theorem parse_of_sourceForm {ts : TokenStream} {rules : List RuleDecl}
    (h : SourceForm ts.tokens rules) : parse ts = .ok rules :=
  rulesFrom_complete h (Nat.le_refl _) (Nat.le_refl _)

/-- **The readers follow the grammar.** A source is read as rules exactly if its tokens have their
form. -/
theorem parse_eq_ok {ts : TokenStream} {rules : List RuleDecl} :
    parse ts = .ok rules ↔ SourceForm ts.tokens rules :=
  ⟨sourceForm_of_parse, parse_of_sourceForm⟩

/-- **What is read, and that it is one thing.** The tokens of a source are read as exactly those
rules whose form they have, whatever tokens they are, and they have the form of no two lists of
rules. -/
theorem parse_iff_sourceForm (ts : TokenStream) :
    (∀ rules, parse ts = .ok rules ↔ SourceForm ts.tokens rules) ∧
      ∀ rules rules', SourceForm ts.tokens rules → SourceForm ts.tokens rules' →
        rules = rules' := by
  refine ⟨fun rules => parse_eq_ok, fun rules rules' h h' => ?_⟩
  have hread : parse ts = .ok rules := parse_of_sourceForm h
  have hread' : parse ts = .ok rules' := parse_of_sourceForm h'
  exact Except.ok.inj (hread.symm.trans hread')

/-- The tokens of a rule whose condition joins three rules by `or` and then `and`. -/
def orAndTokens : TokenStream where
  tokens :=
    ([.keyword .rule, .identifier "r", .leftBrace, .keyword .condition, .colon, .identifier "a",
      .keyword .or, .identifier "b", .keyword .and, .identifier "c", .rightBrace] :
      List Token).map fun t => ⟨t, .unknown⟩
  stop := .unknown

/-- The rule that these tokens write. -/
def orAndRule : RuleDecl where
  name := "r"
  span := .unknown
  isPrivate := false
  isGlobal := false
  tags := []
  metaEntries := []
  strings := []
  condition := some (.or (.rule "a" .unknown) (.and (.rule "b" .unknown) (.rule "c" .unknown)))

/-- The tokens have the form of this rule, in which `and` binds closer, and of no other. -/
theorem parse_iff_sourceForm_orAnd :
    SourceForm orAndTokens.tokens [orAndRule] ∧
      ∀ rules, SourceForm orAndTokens.tokens rules → rules = [orAndRule] := by
  obtain ⟨hread, hunique⟩ := parse_iff_sourceForm orAndTokens
  have hform : SourceForm orAndTokens.tokens [orAndRule] :=
    (hread [orAndRule]).mp (by decide +kernel)
  exact ⟨hform, fun rules h => hunique rules [orAndRule] h hform⟩

end Parser

end PackageScan
