import PackageScan.Pattern.Basic
import PackageScan.Proofs.Rule.Checking
import PackageScan.Proofs.Rule.Grammar
import PackageScan.Proofs.Source.Places

/-!
# Spans of rules

Rules carry the stretches of text that they were read from, some of them joined from those of
several tokens. When the tokens stand in a text, all of these are stretches of it
(`Grammar.SourceForm.isIn`), since joining two stretches of a text gives another one.

The checks report what is wrong at one of the spans of a rule: at the rule itself, at a declared
string or at a part of the condition. An integer where a truth value is due has no span of its own
and is reported at the rule. So an error of the checks is at a stretch of the text, as long as the
number of rules is not the fault of those that were there before (`Validation.isIn_of_check`).
-/

namespace PackageScan

variable {text : List Char}

/-- All spans in the expression are stretches of the text. -/
def Expr.IsIn (text : List Char) : Expr → Prop
  | .found _ span | .count _ span | .rule _ span | .ofSet _ _ span => span.IsIn text
  | .not operand => operand.IsIn text
  | .and left right | .or left right => left.IsIn text ∧ right.IsIn text
  | .compare _ left right span => span.IsIn text ∧ left.IsIn text ∧ right.IsIn text
  | .bool _ | .int _ | .filesize => True

/-- All spans in the rule are stretches of the text. -/
structure RuleDecl.IsIn (text : List Char) (rule : RuleDecl) : Prop where
  /-- The rule as a whole is one. -/
  span : rule.span.IsIn text
  /-- Its meta entries are. -/
  metaEntries : ∀ entry ∈ rule.metaEntries, entry.span.IsIn text
  /-- Its strings are. -/
  strings : ∀ decl ∈ rule.strings, decl.span.IsIn text
  /-- So is what its condition carries. -/
  condition : ∀ e, rule.condition = some e → e.IsIn text

namespace Expr

/-- The span of an expression that has one is a stretch of the text. -/
theorem IsIn.span? {e : Expr} (h : e.IsIn text) :
    ∀ span, e.span? = some span → span.IsIn text := by
  induction e with
  | found _ _ | count _ _ | rule _ _ | ofSet _ _ _ =>
    rintro span hspan
    cases hspan
    exact h
  | compare _ _ _ _ =>
    rintro span hspan
    cases hspan
    exact h.1
  | not operand ih => exact ih h
  | and left right ihl ihr | or left right ihl ihr =>
    -- the spans of both operands are joined where both have one
    intro span hspan
    rw [Expr.span?] at hspan
    split at hspan
    · rename_i l r hl hr
      rw [← Option.some.inj hspan]
      exact (ihl h.1 l hl).join (ihr h.2 r hr)
    · rename_i l hl _
      rw [← Option.some.inj hspan]
      exact ihl h.1 l hl
    · exact ihr h.2 span hspan
  | bool _ | int _ | filesize => exact fun _ hspan => nomatch hspan

private theorem IsIn.getD_span? {e : Expr} {span : Span} (h : e.IsIn text)
    (hspan : span.IsIn text) :
    (e.span?.getD span).IsIn text := by
  cases hs : e.span? with
  | none => exact hspan
  | some own => exact h.span? own hs

private theorem IsIn.of_mem_subterms {e part : Expr} (h : e.IsIn text) (hpart : part ∈ e.subterms) :
    part.IsIn text := by
  induction e with
  | not operand ih =>
    rcases List.mem_cons.mp hpart with rfl | hpart
    · exact h
    · exact ih h hpart
  | and left right ihl ihr | or left right ihl ihr =>
    simp only [subterms_and, subterms_or, List.mem_cons, List.mem_append] at hpart
    rcases hpart with rfl | hpart | hpart
    · exact h
    · exact ihl h.1 hpart
    · exact ihr h.2 hpart
  | compare _ left right span ihl ihr =>
    rw [subterms_compare, List.mem_cons, List.mem_append] at hpart
    rcases hpart with rfl | hpart | hpart
    · exact h
    · exact ihl h.2.1 hpart
    · exact ihr h.2.2 hpart
  | _ =>
    rw [List.mem_singleton.mp hpart]
    exact h

end Expr

/-! ### Spans of what the grammar derives -/

namespace Grammar

open PackageScan.Parser (Tokens)

variable {ts : Tokens}

/-- What holds of every entry that some of the tokens write holds of all entries. -/
theorem Sequence.forall_mem {α : Type} {Form : Tokens → α → Prop} {Q : α → Prop} {as : List α}
    (h : Sequence Form ts as) (hQ : ∀ us a, us ⊆ ts → Form us a → Q a) : ∀ a ∈ as, Q a := by
  induction h with
  | nil => exact fun _ h => nomatch h
  | @cons ts us a as ha _ ih =>
    have hfirst : Q a := hQ ts a (List.subset_append_left ts us) ha
    refine List.forall_mem_cons.mpr ⟨hfirst, ih fun vs b hvs => ?_⟩
    exact hQ vs b (List.subset_append_of_subset_right _ hvs)

private theorem isIn_comparisonSpan {op : Span} {left right : Expr} (hop : op.IsIn text)
    (hl : left.IsIn text) (hr : right.IsIn text) :
    (comparisonSpan op left right).IsIn text := by
  have hspans : ∀ span ∈ left.span?.toList ++ right.span?.toList, span.IsIn text := by
    intro span hspan
    rw [List.mem_append, Option.mem_toList, Option.mem_toList] at hspan
    rcases hspan with hspan | hspan
    · exact hl.span? span hspan
    · exact hr.span? span hspan
  rw [comparisonSpan]
  generalize left.span?.toList ++ right.span?.toList = spans at hspans ⊢
  induction spans generalizing op with
  | nil => exact hop
  | cons span spans ih =>
    obtain ⟨hspan, hspans⟩ := List.forall_mem_cons.mp hspans
    exact ih (hop.join hspan) hspans

theorem Derives.isIn {level : Level} {d : Nat} {e : Expr} (h : Derives level d ts e)
    (ht : ∀ t ∈ ts, t.span.IsIn text) : e.IsIn text := by
  induction h with
  | true | false | filesize | integer => trivial
  | found | count | rule => exact ht _ List.mem_cons_self
  | @ofThem _ t _ _ s₂ _ =>
    exact (ht t List.mem_cons_self).join (ht ⟨.keyword .them, s₂⟩ (by simp))
  | @ofItems _ t _ _ _ _ _ s₃ _ _ =>
    exact (ht t List.mem_cons_self).join (ht ⟨.rightParen, s₃⟩ (by simp))
  | parentheses _ ih =>
    exact ih fun t h => ht t (List.mem_cons_of_mem _ (List.mem_append_left _ h))
  | not _ ih => exact ih fun t h => ht t (List.mem_cons_of_mem _ h)
  | alone _ ih | plain _ ih | conjunct _ ih | disjunct _ ih => exact ih ht
  | compare _ _ _ ihl ihr =>
    rw [List.forall_mem_append, List.forall_mem_cons] at ht
    obtain ⟨hl, hop, hr⟩ := ht
    exact ⟨isIn_comparisonSpan hop (ihl hl) (ihr hr), ihl hl, ihr hr⟩
  | and _ _ ihl ihr | or _ _ ihl ihr =>
    rw [List.forall_mem_append, List.forall_mem_cons] at ht
    exact ⟨ihl ht.1, ihr ht.2.2⟩

theorem MetaForm.isIn {entry : MetaEntry} (h : MetaForm ts entry)
    (ht : ∀ t ∈ ts, t.span.IsIn text) : entry.span.IsIn text := by
  cases h with
  | @intro key s₁ s₂ t _ _ =>
    exact (ht ⟨.identifier key, s₁⟩ (by simp)).join (ht t (by simp))

theorem StringForm.isIn {decl : StringDecl} (h : StringForm ts decl)
    (ht : ∀ t ∈ ts, t.span.IsIn text) : decl.span.IsIn text := by
  induction h with
  | @value name s₁ s₂ t _ _ _ =>
    exact (ht ⟨.stringName name, s₁⟩ (by simp)).join (ht t (by simp))
  | modified _ _ ih =>
    rw [List.forall_mem_append] at ht
    exact (ih ht.1).join (ht.2 _ List.mem_cons_self)

private theorem isIn_startSpan {modifiers : Tokens} {word : Span} (hword : word.IsIn text)
    (ht : ∀ t ∈ modifiers, t.span.IsIn text) : (startSpan modifiers word).IsIn text := by
  cases modifiers with
  | nil => exact hword
  | cons t _ => exact ht t List.mem_cons_self

theorem RuleForm.isIn {rule : RuleDecl} (h : RuleForm ts rule)
    (ht : ∀ t ∈ ts, t.span.IsIn text) : rule.IsIn text := by
  cases h with
  | intro _ _ hmeta hstrings hcondition =>
    simp only [List.forall_mem_append, List.forall_mem_cons] at ht
    obtain ⟨hmodifiers, hword, hname, -, -, hmetaTokens, hstringTokens, hconditionTokens, hright,
      -⟩ := ht
    refine ⟨?_, ?_, ?_, ?_⟩
    · exact ((isIn_startSpan hword hmodifiers).join hname).join hright
    · cases hmeta with
      | absent => exact List.forall_mem_nil _
      | present hentries =>
        rw [List.forall_mem_cons, List.forall_mem_cons] at hmetaTokens
        exact hentries.forall_mem fun us entry hus hentry =>
          hentry.isIn fun t h => hmetaTokens.2.2 t (hus h)
    · cases hstrings with
      | absent => exact List.forall_mem_nil _
      | present hdecls =>
        rw [List.forall_mem_cons, List.forall_mem_cons] at hstringTokens
        exact hdecls.1.forall_mem fun us decl hus hdecl =>
          hdecl.isIn fun t h => hstringTokens.2.2 t (hus h)
    · cases hcondition with
      | absent => exact fun _ he => nomatch he
      | present hbody =>
        rw [List.forall_mem_cons, List.forall_mem_cons] at hconditionTokens
        obtain ⟨e, rfl, hderives⟩ := hbody
        rintro _ ⟨⟩
        exact hderives.isIn hconditionTokens.2.2

/-- **Rules stand in their text.** When the tokens of a source are stretches of a text, all spans of
its rules are. -/
theorem SourceForm.isIn {rules : List RuleDecl} (h : SourceForm ts rules)
    (ht : ∀ t ∈ ts, t.span.IsIn text) : ∀ rule ∈ rules, rule.IsIn text :=
  Sequence.forall_mem h fun _ _ hus hrule => hrule.isIn fun t h => ht t (hus h)

end Grammar

/-! ### Where the checks report -/

namespace Validation

variable {rule : RuleDecl} {declared : RuleNames} {reject : Bool} {e : ValidationError}

private theorem isIn_of_checkStrings {name : String} {seen : Std.HashSet String}
    {decls : List StringDecl} (h : checkStrings name seen decls = .error e)
    (hdecls : ∀ decl ∈ decls, decl.span.IsIn text) : e.span.IsIn text := by
  induction decls generalizing seen with
  | nil => exact nomatch h
  | cons decl rest ih =>
    obtain ⟨hdecl, hrest⟩ := List.forall_mem_cons.mp hdecls
    rw [checkStrings] at h
    split_ifs at h
    · cases h
      exact hdecl
    · cases h
      exact hdecl
    · split at h
      · cases h
        exact hdecl
      · exact ih h hrest

private theorem isIn_of_checkTypes {condition : Expr} (h : checkTypes rule condition = .error e)
    (hrule : rule.span.IsIn text) (hcondition : condition.IsIn text) : e.span.IsIn text := by
  induction condition with
  | bool _ | found _ _ | rule _ _ | ofSet _ _ _ => exact nomatch h
  | not operand ih => exact ih h hcondition
  | and left right ihl ihr | or left right ihl ihr =>
    rcases Outcome.bind_eq_error.mp h with h | ⟨_, -, h⟩
    · exact ihl h hcondition.1
    · exact ihr h hcondition.2
  | compare op left right span =>
    rw [checkTypes] at h
    split_ifs at h
    cases h
    exact hcondition.1
  | int _ | filesize | count _ _ =>
    cases h
    exact hcondition.getD_span? hrule

private theorem isIn_of_danglingReference? {part : Expr}
    (h : danglingReference? rule declared part = some e) (hpart : part.IsIn text) :
    e.span.IsIn text := by
  cases part with
  | found name span | count name span | rule name span =>
    simp only [danglingReference?] at h
    split_ifs at h
    cases h
    exact hpart
  | ofSet quantifier set span =>
    cases set with
    | them =>
      simp only [danglingReference?] at h
      split_ifs at h
      cases h
      exact hpart
    | items items =>
      obtain ⟨item, -, rfl⟩ := Option.map_eq_some_iff.mp h
      exact hpart
  | _ => cases h

private theorem isIn_of_checkReferences {condition : Expr}
    (h : checkReferences rule condition declared reject = .error e)
    (hcondition : condition.IsIn text) (hstrings : ∀ decl ∈ rule.strings, decl.span.IsIn text) :
    e.span.IsIn text := by
  rw [checkReferences] at h
  dsimp only at h
  split at h
  · rename_i e' hdangling
    cases h
    obtain ⟨part, hpart, hdangling⟩ := List.exists_of_findSome?_eq_some hdangling
    exact isIn_of_danglingReference? hdangling (hcondition.of_mem_subterms hpart)
  · split at h
    · rename_i decl hunused
      cases h
      exact hstrings decl (List.mem_of_find?_eq_some hunused)
    · cases h

/-- **A rule that is rejected** is rejected at one of its spans. -/
theorem isIn_of_checkRule (h : checkRule rule declared reject = .error e)
    (hrule : rule.IsIn text) : e.span.IsIn text := by
  rw [checkRule] at h
  split at h
  · cases h
    exact hrule.span
  · dsimp only at h
    split at h
    · cases h
      exact hrule.span
    · rcases Outcome.bind_eq_error.mp h with h | ⟨_, -, h⟩
      · exact isIn_of_checkStrings h hrule.strings
      · split at h
        · cases h
          exact hrule.span
        · rename_i condition hcondition
          have hin := hrule.condition condition hcondition
          rcases Outcome.bind_eq_error.mp h with h | ⟨_, -, h⟩
          · exact isIn_of_checkTypes h hrule.span hin
          · exact isIn_of_checkReferences h hin hrule.strings

private theorem isIn_of_checkRules {rules : List RuleDecl}
    (h : checkRules reject declared rules = .error (rule, e))
    (hrules : ∀ rule ∈ rules, rule.IsIn text) : e.span.IsIn text := by
  induction rules generalizing declared with
  | nil => exact nomatch h
  | cons rule' rest ih =>
    obtain ⟨hrule, hrest⟩ := List.forall_mem_cons.mp hrules
    rw [checkRules] at h
    split at h
    · rename_i e' herror
      cases h
      exact isIn_of_checkRule herror hrule
    · exact ih h hrest

/-- When there was room for the rules before, the first rule that is too many is one of the
source. -/
private theorem isIn_of_checkCount {existing : Nat} {rules : List RuleDecl}
    (h : checkCount existing rules = .error e) (hroom : existing ≤ Limits.ruleCount)
    (hrules : ∀ rule ∈ rules, rule.IsIn text) : e.span.IsIn text := by
  rw [checkCount] at h
  dsimp only at h
  split_ifs at h with hcount
  have hindex : Limits.ruleCount - existing < rules.length := by omega
  rw [List.getElem?_eq_getElem hindex] at h
  cases h
  exact (hrules _ (List.getElem_mem hindex)).span

/-- **Rules that are rejected** are rejected at a stretch of the text, if there was room for the
rules before. -/
theorem isIn_of_check {rules : List RuleDecl} (h : check rules declared reject = .error e)
    (hroom : declared.size ≤ Limits.ruleCount) (hrules : ∀ rule ∈ rules, rule.IsIn text) :
    e.span.IsIn text := by
  rw [check] at h
  split at h
  · rename_i e' hcount
    cases h
    exact isIn_of_checkCount hcount hroom hrules
  · obtain ⟨⟨rule, e'⟩, herror, rfl⟩ := Outcome.mapError_eq_error.mp h
    exact isIn_of_checkRules herror hrules

end Validation

/-- A string that does not compile is reported where it is declared. -/
theorem Pattern.span_of_compile {limit : Nat} {decl : StringDecl} {e : ValidationError}
    (h : Pattern.compile limit decl = .error e) : e.span = decl.span := by
  rw [Pattern.compile] at h
  split at h
  · obtain ⟨reason, rfl⟩ := Outcome.exists_of_mapError_bind_eq_error h
    rfl
  · obtain ⟨reason, rfl⟩ := Outcome.exists_of_mapError_bind_eq_error h
    rfl
  · obtain ⟨reason, rfl⟩ := Outcome.exists_of_mapError_bind_eq_error h
    rfl

end PackageScan
