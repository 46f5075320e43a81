import PackageScan.Proofs.Rule.ParserComplete

/-!
# How high conditions are

The reader of conditions counts the parentheses and negations that are open, and gives up beyond a
limit. The operands of a chain, as in `a or b or c`, are read one after another and open nothing,
but each operator of the chain puts another expression on top of what has been read. So the limit
bounds how deep a condition nests (`Grammar.Derives.nestingOf_le`), where a chain is one level
however long it is (`Expr.nesting`), and the height of a condition is bounded by that and the length
of its longest chain (`Expr.height_le_nesting_mul`).

* **A bound on the height**: four times the limit, times the number of operators in the longest
  chain (`Parser.height_le_of_parse`).
* **No bound that is fixed**: chains of any length are read (`Parser.parse_chained`), and one of two
  hundred and fifty-six operators is higher than four times the limit
  (`Parser.lt_height_chained`).
-/

namespace PackageScan

/-! ### Chains -/

namespace Expr

/-- Do two operands with this connective between them make up the expression? -/
def isJoinedBy : Keyword → Expr → Bool
  | .and, and _ _ => true
  | .or, or _ _ => true
  | _, _ => false

/-- Number of operators in the chain that the expression is; zero if it is none. -/
def run : Expr → Nat
  | and left _ => (if left.isJoinedBy .and then left.run else 0) + 1
  | or left _ => (if left.isJoinedBy .or then left.run else 0) + 1
  | _ => 0

/-- Number of operators in the longest chain of the expression, and at least one. -/
def longestRun : Expr → Nat
  | not operand => operand.longestRun
  | and left right => max (and left right).run (max left.longestRun right.longestRun)
  | or left right => max (or left right).run (max left.longestRun right.longestRun)
  | compare _ left right _ => max left.longestRun right.longestRun
  | _ => 1

/-- Height of the expression with each chain counted as one level, whatever its length. -/
def nesting : Expr → Nat
  | not operand => operand.nesting + 1
  | and left right =>
    max (left.nesting + if left.isJoinedBy .and then 0 else 1) (right.nesting + 1)
  | or left right =>
    max (left.nesting + if left.isJoinedBy .or then 0 else 1) (right.nesting + 1)
  | compare _ left right _ => max left.nesting right.nesting + 1
  | _ => 1

variable {e : Expr} {m : Nat}

/-- A chain is no longer than the longest one. -/
private theorem max_run_le (e : Expr) : max e.run 1 ≤ e.longestRun := by
  induction e with
  | not operand ih =>
    simp only [run, longestRun]
    omega
  | and left right ihl _ | or left right ihl _ =>
    rw [longestRun]
    omega
  | compare _ left right _ ihl _ =>
    simp only [run, longestRun]
    omega
  | _ => exact Nat.le_refl 1

@[simp] theorem isJoinedBy_and (left right : Expr) : (and left right).isJoinedBy .and = true := rfl

@[simp] theorem isJoinedBy_or (left right : Expr) : (or left right).isJoinedBy .or = true := rfl

theorem one_le_run {k : Keyword} (h : e.isJoinedBy k = true) : 1 ≤ e.run := by
  cases e with
  | and _ _ | or _ _ => exact Nat.succ_le_succ (Nat.zero_le _)
  | _ => cases k <;> exact absurd h Bool.false_ne_true

/-! ### Height and chains -/

/-- No chain of the expression has more than `m` operators. Each chain is one level and takes at
most `m` expressions of the height; the one that the expression itself is may go on and is counted
apart. -/
def FitsRuns (m : Nat) (e : Expr) : Prop := e.height + m ≤ e.nesting * m + max e.run 1

/-- Where the chain that the expression is does not go on, it takes `m` expressions at most. -/
private theorem FitsRuns.height_le (h : e.FitsRuns m) (hm : e.longestRun ≤ m) :
    e.height ≤ e.nesting * m := by
  have hrun := max_run_le e
  rw [FitsRuns] at h
  omega

/-- An expression on top of another one is a level of its own. -/
private theorem succ_add_le {k s : Nat} (he : e.height ≤ e.nesting * m) (hk : e.nesting + 1 ≤ k)
    (hs : 1 ≤ s) : e.height + 1 + m ≤ k * m + s := by
  have hmul : (e.nesting + 1) * m ≤ k * m := Nat.mul_le_mul_right m hk
  rw [Nat.succ_mul] at hmul
  omega

/-- An expression on top of a chain may go on with it. -/
private theorem chain_add_le {k : Keyword} {n : Nat} (h : e.FitsRuns m) (hm : e.longestRun ≤ m)
    (hn : (e.nesting + if e.isJoinedBy k then 0 else 1) ≤ n) :
    e.height + 1 + m ≤ n * m + ((if e.isJoinedBy k then e.run else 0) + 1) := by
  split_ifs at hn ⊢ with hjoined
  · have hrun : 1 ≤ e.run := one_le_run hjoined
    have hmul : e.nesting * m ≤ n * m := Nat.mul_le_mul_right m hn
    rw [FitsRuns] at h
    omega
  · exact succ_add_le (h.height_le hm) hn (Nat.le_refl _)

/-- Two operands with a connective between them: only the first one may be part of a chain with
them. -/
private theorem joined_add_le (k : Keyword) {left right : Expr} (hl : left.FitsRuns m)
    (hr : right.FitsRuns m) (hml : left.longestRun ≤ m) (hmr : right.longestRun ≤ m) :
    max left.height right.height + 1 + m ≤
      max (left.nesting + if left.isJoinedBy k then 0 else 1) (right.nesting + 1) * m +
        max ((if left.isJoinedBy k then left.run else 0) + 1) 1 := by
  have hleft := chain_add_le (k := k) hl hml (Nat.le_max_left _ (right.nesting + 1))
  have hright := succ_add_le (hr.height_le hmr) (Nat.le_max_right
    (left.nesting + if left.isJoinedBy k then 0 else 1) _) (Nat.le_refl 1)
  omega

private theorem fitsRuns (hm : e.longestRun ≤ m) : e.FitsRuns m := by
  induction e with
  | not operand ih =>
    exact succ_add_le ((ih hm).height_le hm) (Nat.le_refl _) (Nat.le_max_right _ _)
  | compare _ left right _ ihl ihr =>
    rw [longestRun, Nat.max_le] at hm
    have hl := succ_add_le ((ihl hm.1).height_le hm.1)
      (Nat.add_le_add_right (Nat.le_max_left left.nesting right.nesting) 1) (Nat.le_refl 1)
    have hr := succ_add_le ((ihr hm.2).height_le hm.2)
      (Nat.add_le_add_right (Nat.le_max_right left.nesting right.nesting) 1) (Nat.le_refl 1)
    simp only [FitsRuns, height, nesting, run]
    omega
  | and left right ihl ihr =>
    rw [longestRun, Nat.max_le, Nat.max_le] at hm
    exact joined_add_le .and (ihl hm.2.1) (ihr hm.2.2) hm.2.1 hm.2.2
  | or left right ihl ihr =>
    rw [longestRun, Nat.max_le, Nat.max_le] at hm
    exact joined_add_le .or (ihl hm.2.1) (ihr hm.2.2) hm.2.1 hm.2.2
  | _ =>
    simp only [FitsRuns, height, nesting, run]
    omega

/-- **Height and chains.** The height of an expression is at most its nesting times the length of
its longest chain. -/
theorem height_le_nesting_mul (e : Expr) : e.height ≤ e.nesting * e.longestRun :=
  (fitsRuns (Nat.le_refl _)).height_le (Nat.le_refl _)

end Expr

/-! ### What the limit bounds -/

namespace Grammar

open PackageScan.Parser (Tokens)

variable {level : Level} {d : Nat} {ts : Tokens} {e : Expr}

/-- Nesting of what is derived at a level without parentheses and negations. -/
def Level.flat : Level → Nat
  | .operand => 1
  | .comparison | .negation => 2
  | .conjunction => 3
  | .disjunction => 4

/-- Nesting of the expression as the beginning of what is derived at a level: the levels of chains
go on with a chain of their own connective, and put another level on top of everything else. -/
def Level.nestingOf : Level → Expr → Nat
  | .conjunction, e => e.nesting + if e.isJoinedBy .and then 0 else 1
  | .disjunction, e => e.nesting + if e.isJoinedBy .or then 0 else 1
  | _, e => e.nesting

/-- **What is open at once** bounds the nesting: parentheses and negations add the three levels of a
disjunction of conjunctions of comparisons each. -/
theorem Derives.nestingOf_le (h : Derives level d ts e) :
    level.nestingOf e ≤ 3 * d + level.flat := by
  induction h with
  | ofThem | ofItems | true | false | filesize | integer | found | count | rule =>
    exact Nat.le_add_left 1 _
  | parentheses _ ih | alone _ ih | not _ ih | plain _ ih =>
    simp only [Level.nestingOf, Level.flat, Expr.nesting] at ih ⊢
    omega
  | compare _ _ _ ihl ihr =>
    simp only [Level.nestingOf, Level.flat, Expr.nesting] at ihl ihr ⊢
    omega
  | conjunct _ ih | disjunct _ ih =>
    simp only [Level.nestingOf, Level.flat] at ih ⊢
    split_ifs <;> omega
  | and _ _ ihl ihr | or _ _ ihl ihr =>
    simp only [Level.nestingOf, Level.flat, Expr.isJoinedBy_and, Expr.isJoinedBy_or, if_true]
      at ihl ihr ⊢
    rw [Expr.nesting]
    omega

/-- Each expression of the height takes a token. -/
private theorem Derives.height_le_length (h : Derives level d ts e) : e.height ≤ ts.length := by
  induction h with
  | ofThem | ofItems | true | false | filesize | integer | found | count | rule =>
    exact Nat.succ_le_succ (Nat.zero_le _)
  | alone _ ih | plain _ ih | conjunct _ ih | disjunct _ ih => exact ih
  | parentheses _ ih | not _ ih =>
    simp only [Expr.height, List.length_cons, List.length_append]
    omega
  | compare _ _ _ ihl ihr | and _ _ ihl ihr | or _ _ ihl ihr =>
    simp only [Expr.height, List.length_cons, List.length_append]
    omega

end Grammar

/-! ### Rules that are read -/

namespace Parser

open Grammar

/-- **Height of a condition that is read**: at most four times the limit where no chain has more
than one operator, and that times the length of the longest chain in general. It is at most the
number of tokens. -/
theorem height_le_of_parse {ts : TokenStream} {rules : List RuleDecl} (h : parse ts = .ok rules) :
    ∀ rule ∈ rules, ∀ e, rule.condition = some e →
      e.height ≤ 4 * Limits.conditionDepth * e.longestRun ∧ e.height ≤ ts.tokens.length := by
  refine (sourceForm_of_parse h).forall_condition fun us e hus hderives => ⟨?_, ?_⟩
  · have hnesting : e.nesting ≤ 4 * Limits.conditionDepth := by
      have hlevel := hderives.nestingOf_le
      simp only [Level.nestingOf, Level.flat, Limits.conditionDepth] at hlevel ⊢
      omega
    exact Nat.le_trans e.height_le_nesting_mul (Nat.mul_le_mul_right _ hnesting)
  · exact Nat.le_trans hderives.height_le_length hus.length_le

/-! ### Chains of any length -/

/-- A chain of so many operators. -/
def chainTokens : Nat → Tokens
  | 0 => [⟨.keyword .true, .unknown⟩]
  | n + 1 => chainTokens n ++ [⟨.keyword .or, .unknown⟩, ⟨.keyword .true, .unknown⟩]

/-- What the chain is read as. -/
def chainExpr : Nat → Expr
  | 0 => .bool true
  | n + 1 => .or (chainExpr n) (.bool true)

/-- A rule with a chain of so many operators as its condition. -/
def chained (n : Nat) : TokenStream where
  tokens :=
    [⟨.keyword .rule, .unknown⟩, ⟨.identifier "a", .unknown⟩, ⟨.leftBrace, .unknown⟩,
      ⟨.keyword .condition, .unknown⟩, ⟨.colon, .unknown⟩] ++ chainTokens n ++
      [⟨.rightBrace, .unknown⟩]
  stop := .unknown

/-- What the rule is read as. -/
def chainedRule (n : Nat) : RuleDecl where
  name := "a"
  span := .unknown
  isPrivate := false
  isGlobal := false
  tags := []
  metaEntries := []
  strings := []
  condition := some (chainExpr n)

private theorem derives_chain (d n : Nat) :
    Derives .disjunction d (chainTokens n) (chainExpr n) := by
  have htrue : Derives .conjunction d [⟨.keyword .true, .unknown⟩] (.bool true) :=
    .conjunct (.plain (.alone .true))
  induction n with
  | zero => exact .disjunct htrue
  | succ n ih => exact .or ih htrue

private theorem height_chainExpr (n : Nat) : (chainExpr n).height = n + 1 := by
  induction n with
  | zero => rfl
  | succ n ih =>
    rw [chainExpr, Expr.height, ih]
    exact congrArg (· + 1) (Nat.max_eq_left (Nat.le_add_left 1 n))

/-- **Chains of any length** are read. -/
theorem parse_chained (n : Nat) : parse (chained n) = .ok [chainedRule n] := by
  have hcondition : SectionForm .condition none ConditionBody
      (⟨.keyword .condition, .unknown⟩ :: ⟨.colon, .unknown⟩ :: chainTokens n)
      (some (chainExpr n)) :=
    .present ⟨_, rfl, derives_chain _ n⟩
  have hrule := @RuleForm.intro [] [] [] [] _ .unknown .unknown .unknown .unknown "a" [] [] [] _
    (List.forall_mem_nil _) .absent .absent .absent hcondition
  exact parse_of_sourceForm (Sequence.single hrule)

/-- **Higher than four times the limit**: a chain of two hundred and fifty-six operators is read,
although nothing in it is nested. -/
theorem lt_height_chained :
    parse (chained 256) = .ok [chainedRule 256] ∧
      ∃ e, (chainedRule 256).condition = some e ∧ 4 * Limits.conditionDepth < e.height := by
  refine ⟨parse_chained 256, chainExpr 256, rfl, ?_⟩
  rw [height_chainExpr]
  decide

/-- The bounds on this chain. -/
theorem height_le_of_parse_chained :
    parse (chained 256) = .ok [chainedRule 256] ∧
      (chainExpr 256).height ≤ 4 * Limits.conditionDepth * (chainExpr 256).longestRun ∧
      (chainExpr 256).height ≤ (chained 256).tokens.length :=
  ⟨parse_chained 256,
    height_le_of_parse (parse_chained 256) _ (List.mem_singleton_self _) _ rfl⟩

end Parser

end PackageScan
