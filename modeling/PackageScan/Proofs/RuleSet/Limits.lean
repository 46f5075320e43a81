import PackageScan.Proofs.Log.Ensuring
import PackageScan.Proofs.Rule.Limits
import PackageScan.Proofs.RuleSet.Agreement

/-!
# The limits of the compiler

The limits for rules and for the strings of a rule are looked at when the rules of a source are
checked, and nowhere else. Together with those of the scanner they are enforced exactly
(`RuleSet.compileLogged_limits`): a source that is compiled keeps to all of them, and a source that
is rejected because of one goes beyond it.

That the checks report a number that is too large is all there is to show of them
(`RuleFault.IsWarranted`). The compiler itself rejects a checked rule only for what one of its
strings looks for, which is no matter of limits.
-/

namespace PackageScan

/-- A report that a limit is exceeded is warranted by the number of rules, those there were before
included, or by the number of strings of one of them. -/
def RuleFault.IsWarranted (existing : Nat) (rules : List RuleDecl) : RuleFault → Prop
  | .limitExceeded .rules actual =>
    actual = existing + rules.length ∧ Limits.ruleCount < actual
  | .limitExceeded .strings actual =>
    ∃ rule ∈ rules, actual = rule.strings.length ∧ Limits.stringsPerRule < actual
  | _ => True

private theorem RuleFault.IsPatternFault.isWarranted {fault : RuleFault} {existing : Nat}
    {rules : List RuleDecl} (h : fault.IsPatternFault) : fault.IsWarranted existing rules := by
  obtain ⟨name, reason, rfl⟩ | ⟨name, reason, rfl⟩ := h <;> trivial

/-! ### Checks -/

namespace Validation

variable {existing : Nat} {rules : List RuleDecl} {rule : RuleDecl} {e : ValidationError}
variable {declared : RuleNames} {reject : Bool}

private theorem isWarranted_of_checkStrings {name : String} {seen : Std.HashSet String}
    {decls : List StringDecl} (h : checkStrings name seen decls = .error e) :
    e.fault.IsWarranted existing rules := by
  induction decls generalizing seen with
  | nil => cases h
  | cons decl rest ih =>
    rw [checkStrings] at h
    split_ifs at h
    · cases h
      trivial
    · cases h
      trivial
    · split at h
      · cases h
        trivial
      · exact ih h

private theorem isWarranted_of_checkTypes {condition : Expr}
    (h : checkTypes rule condition = .error e) :
    e.fault.IsWarranted existing rules := by
  induction condition with
  | bool _ | found _ _ | rule _ _ | ofSet _ _ _ => cases h
  | not operand ih => exact ih h
  | and left right ihl ihr | or left right ihl ihr =>
    obtain h | ⟨_, -, h⟩ := Outcome.bind_eq_error.mp h
    · exact ihl h
    · exact ihr h
  | compare op left right span =>
    rw [checkTypes] at h
    split_ifs at h
    cases h
    trivial
  | int _ | filesize | count _ _ =>
    cases h
    trivial

private theorem isWarranted_of_danglingReference? {part : Expr}
    (h : danglingReference? rule declared part = some e) : e.fault.IsWarranted existing rules := by
  cases part with
  | found name span | count name span | rule name span =>
    simp only [danglingReference?] at h
    split_ifs at h
    cases h
    trivial
  | ofSet quantifier set span =>
    cases set with
    | them =>
      simp only [danglingReference?] at h
      split_ifs at h
      cases h
      trivial
    | items items =>
      obtain ⟨item, -, rfl⟩ := Option.map_eq_some_iff.mp h
      trivial
  | _ => cases h

private theorem isWarranted_of_checkReferences {condition : Expr}
    (h : checkReferences rule condition declared reject = .error e) :
    e.fault.IsWarranted existing rules := by
  rw [checkReferences] at h
  dsimp only at h
  split at h
  · rename_i e' hdangling
    cases h
    obtain ⟨part, -, hpart⟩ := List.exists_of_findSome?_eq_some hdangling
    exact isWarranted_of_danglingReference? hpart
  · split at h <;> cases h
    trivial

/-- A rule is checked against the limit for strings. -/
private theorem isWarranted_of_checkRule (h : checkRule rule declared reject = .error e)
    (hrule : rule ∈ rules) : e.fault.IsWarranted existing rules := by
  rw [checkRule] at h
  split at h
  · cases h
    trivial
  · dsimp only at h
    split at h
    · rename_i hcount
      cases h
      exact ⟨rule, hrule, rfl, hcount⟩
    · obtain h | ⟨_, -, h⟩ := Outcome.bind_eq_error.mp h
      · exact isWarranted_of_checkStrings h
      · split at h
        · cases h
          trivial
        · obtain h | ⟨_, -, h⟩ := Outcome.bind_eq_error.mp h
          · exact isWarranted_of_checkTypes h
          · exact isWarranted_of_checkReferences h

/-- A rule that is rejected is one of those that are checked. -/
private theorem exists_of_checkRules (h : checkRules reject declared rules = .error (rule, e)) :
    rule ∈ rules ∧ ∃ declared', checkRule rule declared' reject = .error e := by
  induction rules generalizing declared with
  | nil => cases h
  | cons first rest ih =>
    rw [checkRules] at h
    split at h
    · rename_i e' herror
      cases h
      exact ⟨List.mem_cons_self, declared, herror⟩
    · obtain ⟨hrule, hchecked⟩ := ih h
      exact ⟨List.mem_cons_of_mem _ hrule, hchecked⟩

/-- **What the checks report.** -/
theorem isWarranted_of_check (h : check rules declared reject = .error e) :
    e.fault.IsWarranted declared.size rules := by
  rw [check, checkCount] at h
  dsimp only at h
  by_cases hcount : Limits.ruleCount < declared.size + rules.length
  · rw [if_pos hcount] at h
    cases h
    exact ⟨rfl, hcount⟩
  · rw [if_neg hcount] at h
    obtain ⟨⟨rule, e'⟩, herror, rfl⟩ := Outcome.mapError_eq_error.mp h
    obtain ⟨hrule, declared', hchecked⟩ := exists_of_checkRules herror
    exact isWarranted_of_checkRule hchecked hrule

/-- What is accepted keeps to the limits. -/
private theorem limits_of_checkRules (h : checkRules reject declared rules = .ok ()) :
    ∀ rule ∈ rules, rule.strings.length ≤ Limits.stringsPerRule := by
  induction rules generalizing declared with
  | nil => exact List.forall_mem_nil _
  | cons rule rest ih =>
    obtain ⟨hrule, hrest⟩ := checkRules_cons_eq_ok.mp h
    exact List.forall_mem_cons.mpr ⟨(checkRule_eq_ok.mp hrule).2.1, ih hrest⟩

end Validation

/-! ### Sources -/

/-- A report that a limit is exceeded is warranted by the source, or by its rules and the number of
those that there were before. -/
def CompilationError.IsWarranted (existing : Nat) (source : String) : CompilationError → Prop
  | .lexical e => Lexer.IsWarranted source e
  | .grammar _ => True
  | .validation e => ∃ stream rules, Lexer.tokenize source = .ok stream ∧
      Parser.parse stream = .ok rules ∧ e.fault.IsWarranted existing rules

/-- The source keeps to all limits, and its rules, of which no one has too many strings, are as many
as there may be besides those that there were before. -/
def KeepsLimits (existing : Nat) (source : String) (rules : List RuleDecl) : Prop :=
  source.utf8ByteSize ≤ Limits.sourceSize ∧ existing + rules.length ≤ Limits.ruleCount ∧
    (∀ rule ∈ rules, rule.strings.length ≤ Limits.stringsPerRule) ∧
    ∃ stream, Lexer.tokenize source = .ok stream ∧ Parser.parse stream = .ok rules ∧
      stream.tokens.length ≤ Limits.tokenCount ∧ ∀ t ∈ stream.values, t.KeepsLimits

namespace Compiler

variable {c : Compiler} {source : String}

/-- What is accepted keeps to the limits. -/
private theorem keepsLimits_of_outcome {set : RuleSet} {rules : List RuleDecl}
    (h : c.outcome source = .ok (set, rules)) : KeepsLimits c.declared.size source rules := by
  obtain ⟨stream, htokens, hparse, hcheck, -⟩ := outcome_eq_ok.mp h
  obtain ⟨hsize, hcount, hkeeps⟩ := Lexer.keepsLimits_of_tokenize htokens
  obtain ⟨hroom, hrules⟩ := Validation.check_eq_ok.mp hcheck
  exact ⟨hsize, hroom, Validation.limits_of_checkRules hrules, stream, htokens, hparse, hcount,
    hkeeps⟩

/-- What is reported is warranted. -/
private theorem isWarranted_of_outcome {e : CompilationError} (h : c.outcome source = .error e) :
    e.IsWarranted c.declared.size source := by
  rw [outcome] at h
  obtain h | ⟨stream, htokens, h⟩ := Outcome.bind_eq_error.mp h
  · obtain ⟨fault, hfault, rfl⟩ := Outcome.mapError_eq_error.mp h
    exact Lexer.isWarranted_of_tokenize hfault
  have htokens := Outcome.mapError_eq_ok.mp htokens
  obtain h | ⟨rules, hparse, h⟩ := Outcome.bind_eq_error.mp h
  · obtain ⟨fault, -, rfl⟩ := Outcome.mapError_eq_error.mp h
    trivial
  have hparse := Outcome.mapError_eq_ok.mp hparse
  obtain h | ⟨_, hcheck, h⟩ := Outcome.bind_eq_error.mp h
  · obtain ⟨fault, hfault, rfl⟩ := Outcome.mapError_eq_error.mp h
    exact ⟨stream, rules, htokens, hparse, Validation.isWarranted_of_check hfault⟩
  obtain ⟨-, hchecked⟩ := Validation.check_eq_ok.mp (Outcome.mapError_eq_ok.mp hcheck)
  obtain h | ⟨_, -, h⟩ := Outcome.bind_eq_error.mp h
  · -- a checked rule is rejected for what a string looks for
    obtain ⟨fault, hfault, rfl⟩ := Outcome.mapError_eq_error.mp h
    obtain ⟨_, -, _, -, hcompile⟩ := RuleSet.exists_compile_of_pushAll c.declares hchecked
      (Parser.sourceForm_of_parse hparse).listsItems hfault
    exact ⟨stream, rules, htokens, hparse,
      (Pattern.isPatternFault_of_compile hcompile).isWarranted⟩
  · cases h

end Compiler

/-- **Limits are enforced exactly.** A source that is compiled keeps to the limits: its size, the
number of its tokens, the sizes of the names and literals among them, the number of its rules and
that of the strings of each. These are the rules of the set. A source that is rejected because of a
limit goes beyond it: it is too large; a token begins when as many as there may be have been read,
or one that begins with a longer name or with a longer part of a literal; there are more rules, or
a rule has more strings. -/
theorem RuleSet.compileLogged_limits (preferences : CompilerPreferences) (source : String) :
    Logged.Ensures (RuleSet.compileLogged preferences source) fun outcome =>
      match outcome with
      | .ok set => ∃ rules, KeepsLimits 0 source rules ∧ set.names = rules.map RuleDecl.name
      | .error e => e.IsWarranted 0 source := by
  refine (RuleSet.compileLogged_yields preferences source).ensures ?_
  have hempty : ({ preferences : Compiler }).declared.size = 0 :=
    Compiler.size_declared List.nodup_nil
  rw [RuleSet.compile]
  cases houtcome : ({ preferences : Compiler }).outcome source with
  | ok reached =>
    obtain ⟨set, rules⟩ := reached
    have hbuilt := Compiler.built_outcome (c := { preferences }) .empty houtcome
    refine ⟨rules, hempty ▸ Compiler.keepsLimits_of_outcome houtcome, ?_⟩
    exact hbuilt.names_eq
  | error e => exact hempty ▸ Compiler.isWarranted_of_outcome houtcome

end PackageScan
