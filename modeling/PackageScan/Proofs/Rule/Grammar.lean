import Mathlib.Data.List.Basic
import PackageScan.Proofs.Rule.Checking
import PackageScan.Proofs.Rule.TokenReading
import PackageScan.Rule.Parser

/-!
# The grammar of the rule language

Which lists of tokens write which rules, independently of how they are read. Every form relates
the *whole* list of tokens that it covers to what they write, so that a form followed by another
is a concatenation and no rule of the grammar looks ahead.

* **Conditions** (`Derives`) have five levels, loosest first: `or` of `and` of `not` of
  comparisons of operands, the binary connectives associating to the left. The number that a
  derivation carries bounds how many parentheses and negations are open at once; what stands side
  by side does not add up.
* **Rules** (`RuleForm`) have modifiers, a name, tags and up to three sections in fixed order.
  A source is a sequence of rules (`SourceForm`).

Spans are part of what is written: they are the joins of the spans of the tokens covered.
-/

namespace PackageScan

/-- Every integer that is written in the expression fits sixty-four bits with a sign. -/
def Expr.InRange : Expr → Prop
  | .int n => -(Token.integerMax : Int) - 1 ≤ n ∧ n ≤ Token.integerMax
  | .not operand => operand.InRange
  | .and left right | .or left right | .compare _ left right _ => left.InRange ∧ right.InRange
  | .bool _ | .found _ _ | .count _ _ | .filesize | .rule _ _ | .ofSet _ _ _ => True

namespace Grammar

open PackageScan.Parser (Tokens)

/-! ### Conditions -/

/-- The levels of a condition, the loosest first. -/
inductive Level where
  | disjunction
  | conjunction
  | negation
  | comparison
  | operand
  deriving DecidableEq

/-- The token asks for a number of strings. -/
inductive QuantifierForm : Token → Quantifier → Prop
  | any : QuantifierForm (.keyword .any) .any
  | all : QuantifierForm (.keyword .all) .all
  | none : QuantifierForm (.keyword .none) .none
  | atLeast {n : Int} : 0 ≤ n → QuantifierForm (.integer n) (.atLeast n)

/-- The token is an item of a set of strings. -/
inductive ItemForm : Token → SetItem → Prop
  | name {name : String} : name ≠ "" → ItemForm (.stringName name) (.name name)
  | startingWith {start : String} : ItemForm (.stringPrefix start) (.startingWith start)

/-- Items of a set of strings with commas between them; there is at least one. -/
inductive ItemsForm : Tokens → List SetItem → Prop
  | one {t : Located Token} {item : SetItem} : ItemForm t.value item → ItemsForm [t] [item]
  | more {t : Located Token} {item : SetItem} {comma : Span} {ts : Tokens}
      {items : List SetItem} : ItemForm t.value item → ItemsForm ts items →
      ItemsForm (t :: ⟨.comma, comma⟩ :: ts) (item :: items)

/-- The token is a comparison operator. -/
inductive OperatorForm : Token → Comparison → Prop
  | equal : OperatorForm .equal .equal
  | notEqual : OperatorForm .notEqual .notEqual
  | less : OperatorForm .less .less
  | lessEqual : OperatorForm .lessEqual .lessEqual
  | greater : OperatorForm .greater .greater
  | greaterEqual : OperatorForm .greaterEqual .greaterEqual

/-- The span of a comparison: that of its operator, joined with those of its operands that have
one. -/
def comparisonSpan (op : Span) (left right : Expr) : Span :=
  (left.span?.toList ++ right.span?.toList).foldl Span.join op

/-- `Derives level depth ts e`: the tokens `ts` write the expression `e` at the given level, with
at most `depth` parentheses and negations open at once. -/
inductive Derives : Level → Nat → Tokens → Expr → Prop
  | true {d : Nat} {s : Span} : Derives .operand d [⟨.keyword .true, s⟩] (.bool Bool.true)
  | false {d : Nat} {s : Span} : Derives .operand d [⟨.keyword .false, s⟩] (.bool Bool.false)
  | filesize {d : Nat} {s : Span} : Derives .operand d [⟨.keyword .filesize, s⟩] .filesize
  | integer {d : Nat} {n : Int} {s : Span} : Derives .operand d [⟨.integer n, s⟩] (.int n)
  | found {d : Nat} {name : String} {s : Span} : name ≠ "" →
      Derives .operand d [⟨.stringName name, s⟩] (.found name s)
  | count {d : Nat} {name : String} {s : Span} :
      Derives .operand d [⟨.stringCount name, s⟩] (.count name s)
  | rule {d : Nat} {name : String} {s : Span} :
      Derives .operand d [⟨.identifier name, s⟩] (.rule name s)
  | ofThem {d : Nat} {t : Located Token} {q : Quantifier} {s₁ s₂ : Span} :
      QuantifierForm t.value q →
      Derives .operand d [t, ⟨.keyword .of, s₁⟩, ⟨.keyword .them, s₂⟩]
        (.ofSet q .them (t.span.join s₂))
  | ofItems {d : Nat} {t : Located Token} {q : Quantifier} {ts : Tokens} {items : List SetItem}
      {s₁ s₂ s₃ : Span} : QuantifierForm t.value q → ItemsForm ts items →
      Derives .operand d
        (t :: ⟨.keyword .of, s₁⟩ :: ⟨.leftParen, s₂⟩ :: (ts ++ [⟨.rightParen, s₃⟩]))
        (.ofSet q (.items items) (t.span.join s₃))
  | parentheses {d : Nat} {ts : Tokens} {e : Expr} {s₁ s₂ : Span} :
      Derives .disjunction d ts e →
      Derives .operand (d + 1) (⟨.leftParen, s₁⟩ :: (ts ++ [⟨.rightParen, s₂⟩])) e
  | alone {d : Nat} {ts : Tokens} {e : Expr} : Derives .operand d ts e →
      Derives .comparison d ts e
  | compare {d : Nat} {ts us : Tokens} {t : Located Token} {op : Comparison} {l r : Expr} :
      Derives .operand d ts l → OperatorForm t.value op → Derives .operand d us r →
      Derives .comparison d (ts ++ t :: us) (.compare op l r (comparisonSpan t.span l r))
  | not {d : Nat} {ts : Tokens} {e : Expr} {s : Span} : Derives .negation d ts e →
      Derives .negation (d + 1) (⟨.keyword .not, s⟩ :: ts) (.not e)
  | plain {d : Nat} {ts : Tokens} {e : Expr} : Derives .comparison d ts e →
      Derives .negation d ts e
  | conjunct {d : Nat} {ts : Tokens} {e : Expr} : Derives .negation d ts e →
      Derives .conjunction d ts e
  | and {d : Nat} {ts us : Tokens} {s : Span} {l r : Expr} : Derives .conjunction d ts l →
      Derives .negation d us r →
      Derives .conjunction d (ts ++ ⟨.keyword .and, s⟩ :: us) (.and l r)
  | disjunct {d : Nat} {ts : Tokens} {e : Expr} : Derives .conjunction d ts e →
      Derives .disjunction d ts e
  | or {d : Nat} {ts us : Tokens} {s : Span} {l r : Expr} : Derives .disjunction d ts l →
      Derives .conjunction d us r →
      Derives .disjunction d (ts ++ ⟨.keyword .or, s⟩ :: us) (.or l r)

/-! ### Rules -/

/-- What is written one after another. -/
inductive Sequence {α : Type} (Form : Tokens → α → Prop) : Tokens → List α → Prop
  | nil : Sequence Form [] []
  | cons {ts us : Tokens} {a : α} {as : List α} : Form ts a → Sequence Form us as →
      Sequence Form (ts ++ us) (a :: as)

/-- A tag. -/
inductive TagForm : Tokens → String → Prop
  | intro {name : String} {s : Span} : TagForm [⟨.identifier name, s⟩] name

/-- The tags of a rule: a colon and at least one tag, or nothing. -/
inductive TagsForm : Tokens → List String → Prop
  | absent : TagsForm [] []
  | present {s : Span} {ts : Tokens} {names : List String} : Sequence TagForm ts names →
      names ≠ [] → TagsForm (⟨.colon, s⟩ :: ts) names

/-- The token is the value of a meta entry. -/
inductive MetaValueForm : Token → MetaValue → Prop
  | text {bytes : List UInt8} : MetaValueForm (.text bytes) (.text (Utf8.decodeLossy bytes))
  | integer {value : Int} : MetaValueForm (.integer value) (.integer value)
  | true : MetaValueForm (.keyword .true) (.boolean Bool.true)
  | false : MetaValueForm (.keyword .false) (.boolean Bool.false)

/-- A meta entry. -/
inductive MetaForm : Tokens → MetaEntry → Prop
  | intro {key : String} {s₁ s₂ : Span} {t : Located Token} {value : MetaValue} :
      MetaValueForm t.value value →
      MetaForm [⟨.identifier key, s₁⟩, ⟨.assign, s₂⟩, t] ⟨key, value, s₁.join t.span⟩

/-- The token is the value of a declared string. -/
inductive StringValueForm : Token → StringValue → Prop
  | text {bytes : List UInt8} : StringValueForm (.text bytes) (.text bytes)
  | hex {body : String} : StringValueForm (.hex body) (.hex body)
  | regex {literal : RegexLiteral} : StringValueForm (.regex literal) (.regex literal)

/-- The word is a modifier of a declared string, which turns the first modifiers into the
second. -/
inductive ModifierForm (m : StringModifiers) : Keyword → StringModifiers → Prop
  | nocase : ModifierForm m .nocase { m with nocase := true }
  | wide : ModifierForm m .wide { m with wide := true }
  | ascii : ModifierForm m .ascii { m with ascii := true }
  | fullword : ModifierForm m .fullword { m with fullword := true }

/-- A declared string: its name, its value and any number of modifiers. -/
inductive StringForm : Tokens → StringDecl → Prop
  | value {name : String} {s₁ s₂ : Span} {t : Located Token} {value : StringValue} :
      name ≠ "" → StringValueForm t.value value →
      StringForm [⟨.stringName name, s₁⟩, ⟨.assign, s₂⟩, t]
        ⟨name, value, {}, s₁.join t.span⟩
  | modified {ts : Tokens} {decl : StringDecl} {k : Keyword} {m : StringModifiers} {s : Span} :
      StringForm ts decl → ModifierForm decl.modifiers k m →
      StringForm (ts ++ [⟨.keyword k, s⟩])
        { decl with modifiers := m, span := decl.span.join s }

/-- A section of a rule: its word, a colon and its body, or nothing. -/
inductive SectionForm {α : Type} (k : Keyword) (absent : α) (Body : Tokens → α → Prop) :
    Tokens → α → Prop
  | absent : SectionForm k absent Body [] absent
  | present {s₁ s₂ : Span} {ts : Tokens} {a : α} : Body ts a →
      SectionForm k absent Body (⟨.keyword k, s₁⟩ :: ⟨.colon, s₂⟩ :: ts) a

/-- At least one declared string. -/
def StringsBody (ts : Tokens) (decls : List StringDecl) : Prop :=
  Sequence StringForm ts decls ∧ decls ≠ []

/-- A condition. -/
def ConditionBody (ts : Tokens) (condition : Option Expr) : Prop :=
  ∃ e, condition = some e ∧ Derives .disjunction (Limits.conditionDepth - 1) ts e

/-- The token may stand before a rule. -/
def IsModifier (t : Located Token) : Prop :=
  t.value = .keyword .private ∨ t.value = .keyword .global

/-- Does the word stand among the modifiers? -/
def hasModifier (k : Keyword) (modifiers : Tokens) : Bool :=
  modifiers.any fun t => t.value == .keyword k

/-- The span of the first token of a rule: a modifier or the word `rule`. -/
def startSpan (modifiers : Tokens) (word : Span) : Span :=
  (modifiers.head?.map Located.span).getD word

/-- A rule. -/
inductive RuleForm : Tokens → RuleDecl → Prop
  | intro {modifiers tagTokens metaTokens stringTokens conditionTokens : Tokens}
      {word nameSpan left right : Span} {name : String} {tags : List String}
      {metaEntries : List MetaEntry} {strings : List StringDecl} {condition : Option Expr} :
      (∀ t ∈ modifiers, IsModifier t) →
      TagsForm tagTokens tags →
      SectionForm .meta [] (Sequence MetaForm) metaTokens metaEntries →
      SectionForm .strings [] StringsBody stringTokens strings →
      SectionForm .condition none ConditionBody conditionTokens condition →
      RuleForm
        (modifiers ++ ⟨.keyword .rule, word⟩ :: ⟨.identifier name, nameSpan⟩ ::
          (tagTokens ++ ⟨.leftBrace, left⟩ ::
            (metaTokens ++ (stringTokens ++ (conditionTokens ++ [⟨.rightBrace, right⟩])))))
        { name
          span := ((startSpan modifiers word).join nameSpan).join right
          isPrivate := hasModifier .private modifiers
          isGlobal := hasModifier .global modifiers
          tags, metaEntries, strings, condition }

/-- The rules of a source. -/
abbrev SourceForm : Tokens → List RuleDecl → Prop := Sequence RuleForm

/-! ### Sequences -/

namespace Sequence

variable {α : Type} {Form : Tokens → α → Prop}

theorem single {ts : Tokens} {a : α} (h : Form ts a) : Sequence Form ts [a] := by
  have h' := Sequence.cons h .nil
  rwa [List.append_nil] at h'

theorem append {ts us : Tokens} {as bs : List α} (h : Sequence Form ts as)
    (h' : Sequence Form us bs) : Sequence Form (ts ++ us) (as ++ bs) := by
  induction h with
  | nil => exact h'
  | cons ha _ ih =>
    rw [List.append_assoc, List.cons_append]
    exact .cons ha ih

/-- The last entry of a sequence comes last. -/
theorem of_concat {ts : Tokens} {as : List α} {a : α} (h : Sequence Form ts (as ++ [a])) :
    ∃ us vs, ts = us ++ vs ∧ Sequence Form us as ∧ Form vs a := by
  induction as generalizing ts with
  | nil =>
    cases h with
    | cons ha h =>
      cases h
      exact ⟨[], _, by simp, .nil, ha⟩
  | cons b as ih =>
    cases h with
    | @cons ts' us' _ _ hb h =>
      obtain ⟨us, vs, rfl, hus, hvs⟩ := ih h
      exact ⟨ts' ++ us, vs, (List.append_assoc ..).symm, .cons hb hus, hvs⟩

end Sequence

/-- A rule ends with its closing brace. -/
theorem RuleForm.exists_getLast {ts : Tokens} {rule : RuleDecl} (h : RuleForm ts rule) :
    ∃ us s, ts = us ++ [⟨.rightBrace, s⟩] := by
  cases h with
  | @intro modifiers tagTokens metaTokens stringTokens conditionTokens word nameSpan left right
      name =>
    exact ⟨modifiers ++ ⟨.keyword .rule, word⟩ :: ⟨.identifier name, nameSpan⟩ ::
      (tagTokens ++ ⟨.leftBrace, left⟩ :: (metaTokens ++ (stringTokens ++ conditionTokens))),
      right, by simp⟩

/-- A source ends with a closing brace, unless it has no tokens. -/
theorem SourceForm.exists_getLast {ts : Tokens} {rules : List RuleDecl}
    (h : SourceForm ts rules) : ts = [] ∨ ∃ us s, ts = us ++ [⟨.rightBrace, s⟩] := by
  induction h with
  | nil => exact Or.inl rfl
  | @cons ts us rule rules hr _ ih =>
    rcases ih with rfl | ⟨vs, s, rfl⟩
    · rw [List.append_nil]
      exact Or.inr hr.exists_getLast
    · exact Or.inr ⟨ts ++ vs, s, (List.append_assoc ..).symm⟩

/-! ### Derivations take tokens -/

/-- A derivation takes a token, and no operand or comparison begins with `not`. -/
theorem Derives.exists_cons {level : Level} {d : Nat} {ts : Tokens} {e : Expr}
    (h : Derives level d ts e) : ∃ t us, ts = t :: us ∧
      (level = .operand ∨ level = .comparison → t.value ≠ .keyword .not) := by
  induction h with
  | ofThem hq => exact ⟨_, _, rfl, fun _ ht => by rw [ht] at hq; exact nomatch hq⟩
  | ofItems hq => exact ⟨_, _, rfl, fun _ ht => by rw [ht] at hq; exact nomatch hq⟩
  | alone _ ih =>
    obtain ⟨t, us, rfl, ht⟩ := ih
    exact ⟨t, us, rfl, fun _ => ht (Or.inl rfl)⟩
  | compare _ _ _ ihl _ =>
    obtain ⟨t, us, rfl, ht⟩ := ihl
    exact ⟨t, _, List.cons_append, fun _ => ht (Or.inl rfl)⟩
  | plain _ ih | conjunct _ ih | disjunct _ ih =>
    obtain ⟨t, us, rfl, -⟩ := ih
    exact ⟨t, us, rfl, fun h => by rcases h with h | h <;> exact nomatch h⟩
  | and _ _ ihl _ | or _ _ ihl _ =>
    obtain ⟨t, us, rfl, -⟩ := ihl
    exact ⟨t, _, List.cons_append, fun h => by rcases h with h | h <;> exact nomatch h⟩
  | not => exact ⟨_, _, rfl, fun h => by rcases h with h | h <;> exact nomatch h⟩
  | _ => exact ⟨_, _, rfl, fun _ => nofun⟩

theorem Derives.ne_nil {level : Level} {d : Nat} {ts : Tokens} {e : Expr}
    (h : Derives level d ts e) : ts ≠ [] := by
  obtain ⟨t, us, rfl, -⟩ := h.exists_cons
  exact List.cons_ne_nil t us

/-! ### Sets list something -/

theorem ItemsForm.ne_nil {ts : Tokens} {items : List SetItem} (h : ItemsForm ts items) :
    items ≠ [] := by
  cases h <;> exact List.cons_ne_nil _ _

/-- What the grammar derives lists an item in each of its sets. -/
theorem Derives.listsItems {level : Level} {d : Nat} {ts : Tokens} {e : Expr}
    (h : Derives level d ts e) : e.ListsItems := by
  induction h with
  | ofThem hq => exact nofun
  | ofItems hq hi => exact fun h => hi.ne_nil (StringSet.items.inj h)
  | parentheses _ ih | alone _ ih | not _ ih | plain _ ih | conjunct _ ih | disjunct _ ih =>
    exact ih
  | compare _ _ _ ihl ihr | and _ _ ihl ihr | or _ _ ihl ihr => exact ⟨ihl, ihr⟩
  | _ => trivial

/-- The condition of a rule is derived by some of its tokens that stand side by side. -/
private theorem RuleForm.exists_derives {ts : Tokens} {rule : RuleDecl} (h : RuleForm ts rule)
    {e : Expr}
    (he : rule.condition = some e) :
    ∃ us, us <:+: ts ∧ Derives .disjunction (Limits.conditionDepth - 1) us e := by
  cases h with
  | @intro modifiers tagTokens metaTokens stringTokens _ word nameSpan left right name _ _ _ _
      _ _ _ _ hcondition =>
    cases hcondition with
    | absent => exact nomatch he
    | @present s₁ s₂ us _ hbody =>
      obtain ⟨e', rfl, hd⟩ := hbody
      cases he
      refine ⟨us, ⟨modifiers ++ ⟨.keyword .rule, word⟩ :: ⟨.identifier name, nameSpan⟩ ::
        (tagTokens ++ ⟨.leftBrace, left⟩ :: (metaTokens ++ (stringTokens ++
          [⟨.keyword .condition, s₁⟩, ⟨.colon, s₂⟩]))), [⟨.rightBrace, right⟩], ?_⟩, hd⟩
      simp

/-- What holds of every condition that tokens of a source derive, side by side, holds of the
conditions of its rules. -/
theorem SourceForm.forall_condition {P : Expr → Prop} {ts : Tokens} {rules : List RuleDecl}
    (h : SourceForm ts rules)
    (hP : ∀ us e, us <:+: ts → Derives .disjunction (Limits.conditionDepth - 1) us e → P e) :
    ∀ rule ∈ rules, ∀ e, rule.condition = some e → P e := by
  induction h with
  | nil => exact fun _ h => nomatch h
  | @cons ts us rule rules hr _ ih =>
    refine List.forall_mem_cons.mpr ⟨fun e he => ?_, ih fun vs e hvs hd => ?_⟩
    · obtain ⟨vs, hvs, hd⟩ := hr.exists_derives he
      exact hP vs e (hvs.trans (List.prefix_append ts us).isInfix) hd
    · exact hP vs e (hvs.trans (List.suffix_append ts us).isInfix) hd

/-- Every rule of a source lists an item in each set of its condition. -/
theorem SourceForm.listsItems {ts : Tokens} {rules : List RuleDecl} (h : SourceForm ts rules) :
    ∀ rule ∈ rules, rule.ListsItems :=
  h.forall_condition fun _ _ _ hd => hd.listsItems

/-! ### Integers are in range -/

/-- The integers that tokens write are in range in what they derive. -/
theorem Derives.inRange {level : Level} {d : Nat} {ts : Tokens} {e : Expr}
    (h : Derives level d ts e) (ht : ∀ t ∈ ts, t.value.InRange) : e.InRange := by
  induction h with
  | integer => exact ht _ List.mem_cons_self
  | parentheses _ ih =>
    exact ih fun t h => ht t (List.mem_cons_of_mem _ (List.mem_append_left _ h))
  | not _ ih => exact ih fun t h => ht t (List.mem_cons_of_mem _ h)
  | alone _ ih | plain _ ih | conjunct _ ih | disjunct _ ih => exact ih ht
  | compare _ _ _ ihl ihr | and _ _ ihl ihr | or _ _ ihl ihr =>
    exact ⟨ihl fun t h => ht t (List.mem_append_left _ h),
      ihr fun t h => ht t (List.mem_append_right _ (List.mem_cons_of_mem _ h))⟩
  | _ => trivial

/-- The integers that tokens write are in range in the rules of a source. -/
theorem SourceForm.inRange {ts : Tokens} {rules : List RuleDecl} (h : SourceForm ts rules)
    (ht : ∀ t ∈ ts, t.value.InRange) :
    ∀ rule ∈ rules, ∀ e, rule.condition = some e → e.InRange :=
  h.forall_condition fun _ _ hus hd => hd.inRange fun t h => ht t (hus.subset h)

end Grammar

end PackageScan
