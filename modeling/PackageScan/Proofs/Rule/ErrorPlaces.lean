import PackageScan.Proofs.Rule.ParserSound
import PackageScan.Proofs.Rule.Tiling

/-!
# Where reading goes wrong

A source that cannot be read is reported at one of its places. The reader of tokens reports a fault
at the place after some characters of the text that is left (`Lexer.isIn_of_tokenize_eq_error`),
and the reader of rules at a token or at the end of input (`Parser.pointsAt_of_parse`).

For the latter, each reader keeps to its tokens (`Parser.KeepsTo`): what it leaves is left at the
end of them, and an error points at one of them. Readers in a chain keep to the tokens when each of
them does (`Parser.KeepsTo.bind`), so there is one lemma per reader and no reader is looked into
twice.
-/

namespace PackageScan

/-! ### Tokens -/

namespace Lexer

/-- A fault of the scanner is reported at a place in the text that is left. -/
private theorem exists_prefix_of_scanFrom {budget : Nat} {cs : List Char} {position : Position}
    {seen : List (Located Token)} {metrics : LexMetrics} {e : LexError}
    (h : (scanFrom budget cs position seen metrics).2 = .error e) :
    ∃ before, before <+: cs ∧ e.position = position.advanceAll before := by
  -- a fault stands in a gap, after one or in the token after it, or further on
  fun_induction scanFrom budget cs position seen metrics with
  | case1 =>
    cases h
    exact ⟨_, List.take_prefix _ _, rfl⟩
  | case2 => cases h
  | case3 =>
    cases h
    exact ⟨_, List.take_prefix _ _, rfl⟩
  | case4 cs position seen metrics gap _ _ start c rest hrest _ _ _ _ before =>
    cases h
    refine ⟨cs.take gap.width ++ (c :: rest).take before, ⟨(c :: rest).drop before, ?_⟩, ?_⟩
    · rw [List.append_assoc, List.take_append_drop, ← hrest, List.take_append_drop]
    · exact (Position.advanceAll_append ..).symm
  | case5 cs position seen metrics gap _ _ start c rest hrest budget due _ t w _ stop ih =>
    obtain ⟨before, ⟨after, hbefore⟩, hposition⟩ := ih h
    refine ⟨cs.take gap.width ++ (c :: rest).take w ++ before, ⟨after, ?_⟩, ?_⟩
    · rw [List.append_assoc, hbefore, List.append_assoc, List.take_append_drop, ← hrest,
        List.take_append_drop]
    · rw [hposition, Position.advanceAll_append, Position.advanceAll_append]

/-- **A source without tokens** has its fault at one of its places. -/
theorem isIn_of_tokenize_eq_error {source : String} {e : LexError}
    (h : tokenize source = .error e) : e.position.IsIn source.toList := by
  rw [tokenize, scan] at h
  split_ifs at h
  · cases h
    exact ⟨[], source.toList, rfl, rfl⟩
  · obtain ⟨before, ⟨after, hsplit⟩, hposition⟩ := exists_prefix_of_scanFrom h
    exact ⟨before, after, hsplit.symm, hposition⟩

end Lexer

/-! ### Rules -/

namespace Parser

variable {α β : Type} {stop : Position} {bound : Nat} {ts us : Tokens}

/-- The error points at one of the tokens or at the end of input. -/
def PointsAt (stop : Position) (ts : Tokens) (e : SyntaxError) : Prop :=
  e.span = .point stop ∨ ∃ t ∈ ts, e.span = t.span

/-- The outcome keeps to the tokens that were given: what is left of them is left at their end, and
an error points at one of them. -/
def KeepsTo (stop : Position) (ts : Tokens) : Outcome (α × Tokens) → Prop
  | .ok (_, rest) => rest <:+ ts
  | .error e => PointsAt stop ts e

theorem PointsAt.mono {e : SyntaxError} (h : PointsAt stop us e) (hs : us <:+ ts) :
    PointsAt stop ts e := by
  rcases h with h | ⟨t, ht, h⟩
  · exact Or.inl h
  · exact Or.inr ⟨t, hs.subset ht, h⟩

theorem KeepsTo.mono {x : Outcome (α × Tokens)} (h : KeepsTo stop us x) (hs : us <:+ ts) :
    KeepsTo stop ts x := by
  cases x with
  | error e => exact PointsAt.mono h hs
  | ok result => exact List.IsSuffix.trans h hs

/-- **Chains.** A chain keeps to the tokens when its first reader does and the rest keeps to what
that one leaves. -/
theorem KeepsTo.bind {x : Outcome (α × Tokens)} {f : α × Tokens → Outcome (β × Tokens)}
    (hx : KeepsTo stop ts x) (hf : ∀ a rest, KeepsTo stop rest (f (a, rest))) :
    KeepsTo stop ts (x >>= f) := by
  cases x with
  | error e => exact hx
  | ok result =>
    obtain ⟨a, rest⟩ := result
    exact (hf a rest).mono hx

private theorem keepsTo_here {t : Located Token} {fault : SyntaxFault} (ht : t ∈ ts) :
    KeepsTo stop ts (.error ⟨fault, t.span⟩ : Outcome (α × Tokens)) :=
  Or.inr ⟨t, ht, rfl⟩

private theorem keepsTo_expectedHere (expected : Expected) (ts : Tokens) :
    KeepsTo stop ts (expectedHere stop expected ts : Outcome (α × Tokens)) := by
  cases ts with
  | nil => exact Or.inl rfl
  | cons t rest => exact keepsTo_here List.mem_cons_self

private theorem keepsTo_expectKeyword (k : Keyword) (ts : Tokens) :
    KeepsTo stop ts (expectKeyword stop k ts) := by
  cases ts with
  | nil => exact keepsTo_expectedHere _ _
  | cons t rest =>
    rw [expectKeyword]
    split_ifs
    · exact List.suffix_cons t rest
    · exact keepsTo_expectedHere _ _

private theorem keepsTo_expectToken (mark : Token) (ts : Tokens) :
    KeepsTo stop ts (expectToken stop mark ts) := by
  cases ts with
  | nil => exact keepsTo_expectedHere _ _
  | cons t rest =>
    rw [expectToken]
    split_ifs
    · exact List.suffix_cons t rest
    · exact keepsTo_expectedHere _ _

/-! ### Conditions -/

theorem keepsTo_setItems (seen : List SetItem) (ts : Tokens) :
    KeepsTo stop ts (setItems stop seen ts) := by
  induction hn : ts.length using Nat.strongRecOn generalizing seen ts with
  | ind n ih =>
    subst hn
    cases ts with
    | nil => exact keepsTo_expectedHere _ _
    | cons t ts =>
      rw [setItems_cons]
      split
      · exact keepsTo_expectedHere _ _
      · split
        · rename_i item _ _ comma rest
          have hrest : rest <:+ t :: ⟨.comma, comma⟩ :: rest :=
            (List.suffix_cons _ rest).trans (List.suffix_cons t _)
          refine (ih rest.length ?_ (item :: seen) rest rfl).mono hrest
          rw [List.length_cons, List.length_cons]
          omega
        · exact List.suffix_cons t _

private theorem keepsTo_quantified (quantifier : Quantifier) (start : Span) (ts : Tokens) :
    KeepsTo stop ts (quantified stop quantifier start ts) := by
  rw [quantified]
  refine (keepsTo_expectKeyword .of ts).bind fun _ ts => ?_
  dsimp only
  split
  · exact List.suffix_cons _ _
  · refine (keepsTo_expectToken .leftParen _).bind fun _ ts => ?_
    refine (keepsTo_setItems [] ts).bind fun items ts => ?_
    refine (keepsTo_expectToken .rightParen ts).bind fun span ts => ?_
    exact List.suffix_refl ts

private theorem keepsTo_primary {nested : ExprReader} (hn : ∀ ts, KeepsTo stop ts (nested ts))
    (ts : Tokens) : KeepsTo stop ts (primary stop nested ts) := by
  cases ts with
  | nil => exact keepsTo_expectedHere _ _
  | cons t rest =>
    have hrest : rest <:+ t :: rest := List.suffix_cons t rest
    have ht : t ∈ t :: rest := List.mem_cons_self
    have hquantified (q : Quantifier) :
        KeepsTo stop (t :: rest) (quantified stop q t.span rest) :=
      (keepsTo_quantified q t.span rest).mono hrest
    rw [primary]
    dsimp only
    -- one case per token that an operand may begin with, in the order of the reader
    split
    · exact hrest
    · exact hrest
    · exact hrest
    · exact hquantified .any
    · exact hquantified .all
    · exact hquantified .none
    · split
      · split_ifs
        · exact keepsTo_here ht
        · exact hquantified _
      · exact hrest
    · split_ifs
      · exact keepsTo_here ht
      · exact hrest
    · exact hrest
    · exact hrest
    · refine KeepsTo.bind ((hn rest).mono hrest) fun inner rest => ?_
      refine (keepsTo_expectToken .rightParen rest).bind fun _ rest => ?_
      exact List.suffix_refl rest
    · exact keepsTo_here ht
    · exact keepsTo_here ht
    · exact keepsTo_expectedHere _ _

private theorem keepsTo_comparison {nested : ExprReader} (hn : ∀ ts, KeepsTo stop ts (nested ts))
    (ts : Tokens) : KeepsTo stop ts (comparison stop nested ts) := by
  rw [comparison]
  refine (keepsTo_primary hn ts).bind fun left ts => ?_
  dsimp only
  split
  · rename_i t rest
    split
    · refine KeepsTo.bind ((keepsTo_primary hn rest).mono (List.suffix_cons t rest))
        fun right rest => ?_
      exact List.suffix_refl rest
    · exact List.suffix_refl _
  · exact List.suffix_refl _

private theorem keepsTo_chainFrom {operator : Keyword} {combine : Expr → Expr → Expr}
    {operand : ExprReader} (ho : ∀ ts, KeepsTo stop ts (operand ts)) (fuel : Nat) (left : Expr)
    (ts : Tokens) : KeepsTo stop ts (chainFrom operator combine operand fuel left ts) := by
  induction fuel generalizing left ts with
  | zero => exact List.suffix_refl ts
  | succ fuel ih =>
    cases ts with
    | nil => exact List.suffix_refl []
    | cons t rest =>
      rw [chainFrom]
      split_ifs
      · exact KeepsTo.bind ((ho rest).mono (List.suffix_cons t rest)) fun right rest => ih _ rest
      · exact List.suffix_refl _

private theorem keepsTo_chain {operator : Keyword} {combine : Expr → Expr → Expr}
    {operand : ExprReader} (ho : ∀ ts, KeepsTo stop ts (operand ts)) (ts : Tokens) :
    KeepsTo stop ts (chain bound operator combine operand ts) := by
  rw [chain]
  exact (ho ts).bind fun left rest => keepsTo_chainFrom ho bound left rest

private theorem keepsTo_disjunction {operand : ExprReader} (ho : ∀ ts, KeepsTo stop ts (operand ts))
    (ts : Tokens) : KeepsTo stop ts (disjunction bound operand ts) :=
  keepsTo_chain (keepsTo_chain ho) ts

private theorem keepsTo_tooDeep (ts : Tokens) : KeepsTo stop ts (tooDeep stop ts) := by
  cases ts with
  | nil => exact Or.inl rfl
  | cons t rest => exact keepsTo_here List.mem_cons_self

private theorem keepsTo_negation {negated nested : ExprReader}
    (hneg : ∀ ts, KeepsTo stop ts (negated ts)) (hn : ∀ ts, KeepsTo stop ts (nested ts))
    (ts : Tokens) : KeepsTo stop ts (negation stop negated nested ts) := by
  rw [negation.eq_def]
  split
  · rename_i span rest
    refine KeepsTo.bind ((hneg rest).mono (List.suffix_cons _ rest)) fun inner rest => ?_
    exact List.suffix_refl rest
  · exact keepsTo_comparison hn ts

private theorem keepsTo_unary (depth : Nat) (ts : Tokens) :
    KeepsTo stop ts (unary stop bound depth ts) := by
  induction depth generalizing ts with
  | zero => exact keepsTo_negation keepsTo_tooDeep keepsTo_tooDeep ts
  | succ depth ih => exact keepsTo_negation ih (keepsTo_disjunction ih) ts

private theorem keepsTo_condition (ts : Tokens) : KeepsTo stop ts (condition stop bound ts) :=
  keepsTo_disjunction (keepsTo_unary _) ts

/-! ### Parts of rules -/

theorem keepsTo_tags (ts : Tokens) : KeepsTo stop ts (tags stop ts) := by
  rw [tags.eq_def]
  split
  · rename_i span rest
    have hleft {names : List String} {rest' : Tokens}
        (h : identifiers [] rest = (names, rest')) : rest' <:+ ⟨.colon, span⟩ :: rest := by
      obtain ⟨used, _, rfl, -, -⟩ := identifiers_sound h
      exact (List.suffix_append used rest').trans (List.suffix_cons _ _)
    split
    · rename_i hnames
      exact (keepsTo_expectedHere _ _).mono (hleft hnames)
    · rename_i hnames
      exact hleft hnames
  · exact List.suffix_refl ts

private theorem keepsTo_metaEntries (seen : List MetaEntry) (ts : Tokens) :
    KeepsTo stop ts (metaEntries stop seen ts) := by
  fun_induction metaEntries stop seen ts with
  | case1 seen key s₁ s₂ t rest value hvalue ih =>
    exact ih.mono ⟨[⟨.identifier key, s₁⟩, ⟨.assign, s₂⟩, t], rfl⟩
  | case2 seen key s₁ s₂ t rest =>
    exact (keepsTo_expectedHere _ _).mono ⟨[⟨.identifier key, s₁⟩, ⟨.assign, s₂⟩], rfl⟩
  | case3 => exact (keepsTo_expectedHere _ _).mono List.nil_suffix
  | case4 => exact (keepsTo_expectedHere _ _).mono (List.suffix_cons _ _)
  | case5 seen ts => exact List.suffix_refl ts

private theorem keepsTo_stringDecls (seen : List StringDecl) (ts : Tokens) :
    KeepsTo stop ts (stringDecls stop seen ts) := by
  fun_induction stringDecls stop seen ts with
  | case1 => exact keepsTo_here List.mem_cons_self
  | case2 seen name s₁ _ s₂ t rest value hvalue ih =>
    exact ih.mono ⟨[⟨.stringName name, s₁⟩, ⟨.assign, s₂⟩, t], rfl⟩
  | case3 seen name s₁ _ s₂ t rest =>
    exact (keepsTo_expectedHere _ _).mono ⟨[⟨.stringName name, s₁⟩, ⟨.assign, s₂⟩], rfl⟩
  | case4 => exact (keepsTo_expectedHere _ _).mono List.nil_suffix
  | case5 => exact (keepsTo_expectedHere _ _).mono (List.suffix_cons _ _)
  | case6 k span rest decl earlier decl' hmodifier ih => exact ih.mono (List.suffix_cons _ rest)
  | case7 | case8 | case9 => exact List.suffix_refl _

private theorem keepsTo_stringSection (ts : Tokens) : KeepsTo stop ts (stringSection stop ts) := by
  rw [stringSection]
  refine (keepsTo_stringDecls [] ts).bind fun decls rest => ?_
  cases decls with
  | nil => exact keepsTo_expectedHere _ _
  | cons decl decls => exact List.suffix_refl rest

private theorem keepsTo_conditionSection (ts : Tokens) :
    KeepsTo stop ts (conditionSection stop bound ts) := by
  rw [conditionSection]
  exact (keepsTo_condition ts).bind fun _ rest => List.suffix_refl rest

private theorem keepsTo_sectionOf {k : Keyword} {absent : α} {body : Tokens → Outcome (α × Tokens)}
    (hbody : ∀ ts, KeepsTo stop ts (body ts)) (ts : Tokens) :
    KeepsTo stop ts (sectionOf stop k absent body ts) := by
  cases ts with
  | nil => exact List.suffix_refl []
  | cons t rest =>
    rw [sectionOf]
    split_ifs
    · have hcolon : KeepsTo stop (t :: rest) (expectToken stop .colon rest) :=
        (keepsTo_expectToken .colon rest).mono (List.suffix_cons t rest)
      exact hcolon.bind fun _ rest => hbody rest
    · exact List.suffix_refl _

private theorem keepsTo_ruleName (ts : Tokens) : KeepsTo stop ts (ruleName stop ts) := by
  rw [ruleName.eq_def]
  split
  · exact List.suffix_cons _ _
  · exact keepsTo_expectedHere _ _

/-! ### Rules and sources -/

theorem keepsTo_rule (ts : Tokens) : KeepsTo stop ts (rule stop bound ts) := by
  rw [rule]
  rcases hmodifiers : ruleModifiers false false ts with ⟨⟨isPrivate, isGlobal⟩, rest⟩
  obtain ⟨used, rfl, -, -⟩ := ruleModifiers_sound hmodifiers
  have hrest : rest <:+ used ++ rest := List.suffix_append used rest
  refine KeepsTo.bind ((keepsTo_expectKeyword .rule rest).mono hrest) fun _ ts => ?_
  refine (keepsTo_ruleName ts).bind fun _ ts => ?_
  refine (keepsTo_tags ts).bind fun _ ts => ?_
  refine (keepsTo_expectToken .leftBrace ts).bind fun _ ts => ?_
  refine (keepsTo_sectionOf (keepsTo_metaEntries []) ts).bind fun _ ts => ?_
  refine (keepsTo_sectionOf keepsTo_stringSection ts).bind fun _ ts => ?_
  refine (keepsTo_sectionOf keepsTo_conditionSection ts).bind fun _ ts => ?_
  refine (keepsTo_expectToken .rightBrace ts).bind fun _ ts => ?_
  exact List.suffix_refl ts

private theorem pointsAt_of_rulesFrom {fuel : Nat} {seen : List RuleDecl} {e : SyntaxError}
    (h : rulesFrom stop bound fuel seen ts = .error e) : PointsAt stop ts e := by
  induction fuel generalizing seen ts with
  | zero => cases ts <;> exact nomatch h
  | succ fuel ih =>
    cases ts with
    | nil => exact nomatch h
    | cons t ts =>
      have hrule : KeepsTo stop (t :: ts) (rule stop bound (t :: ts)) := keepsTo_rule _
      rw [rulesFrom] at h
      rcases Outcome.bind_eq_error.mp h with h | ⟨⟨decl, rest⟩, hdecl, h⟩
      · rw [h] at hrule
        exact hrule
      · rw [hdecl] at hrule
        exact (ih h).mono hrule

/-- **Tokens that write no rules** are at fault at one of them or where they end. -/
theorem pointsAt_of_parse {ts : TokenStream} {e : SyntaxError} (h : parse ts = .error e) :
    PointsAt ts.stop ts.tokens e :=
  pointsAt_of_rulesFrom h

end Parser

end PackageScan
