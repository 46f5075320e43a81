import PackageScan.Proofs.Rule.Lexing
import PackageScan.Proofs.Rule.ParserComplete
import PackageScan.Proofs.Rule.Placing
import PackageScan.Proofs.RuleSet.Building

/-!
# Sources in one piece

Sources that a compiler accepts one after another it accepts as one source with line breaks
between them, as long as they are not too much for one source, and it comes to the same rule set.
What an accepted source amounts to, its size apart, is `Compiler.Writes`: it lexes as tokens that
write rules, and these pass the checks and are pushed.

* **One after another**: what two sources write, they write as one (`Compiler.Writes.append`),
  since every stage can be cut at a line break. Tokens do not run over it, the tokens of a source
  end where a rule ends, and the checks of the second part go on with the names of the first.
* **From a source and back**: an accepted source writes what it is read as
  (`Compiler.exists_writes`). A source that writes something is accepted if it is not too large
  (`Compiler.Writes.exists_outcome`); its rules stand elsewhere than those of the parts, which
  changes nothing (`RuleSet.pushAll_bare`).
-/

namespace PackageScan

/-! ### Compiling does not depend on places -/

private theorem Pattern.compile_bare {limit : Nat} {decl : StringDecl} {p : Pattern} :
    Pattern.compile limit decl.bare = .ok p ↔ Pattern.compile limit decl = .ok p := by
  rw [Pattern.compile, Pattern.compile, StringDecl.bare]
  cases decl.value with
  | text bytes | hex body | regex literal =>
    simp only [Outcome.bind_eq_ok, Outcome.mapError_eq_ok]

namespace Names

variable {names : Names}

private theorem operand_bare {e : Expr} {o : Operand} :
    names.operand e.bare = .ok o ↔ names.operand e = .ok o := by
  cases e with
  | count name span =>
    simp only [Expr.bare, operand, Outcome.bind_eq_ok, stringIndex_eq_ok]
  | int _ | filesize => exact Iff.rfl
  | _ => exact iff_of_false (by rintro ⟨⟩) (by rintro ⟨⟩)

private theorem resolve_bare {e : Expr} {c : Condition} :
    names.resolve e.bare = .ok c ↔ names.resolve e = .ok c := by
  induction e generalizing c with
  | found name span =>
    simp only [Expr.bare, resolve, Outcome.bind_eq_ok, stringIndex_eq_ok]
  | rule name span =>
    rw [Expr.bare, resolve, resolve]
    cases names.ruleIndex? name <;> simp
  | not operand ih =>
    simp only [Expr.bare, resolve, Outcome.bind_eq_ok, ih]
  | and left right ihl ihr | or left right ihl ihr =>
    simp only [Expr.bare, resolve, Outcome.bind_eq_ok, ihl, ihr]
  | compare op left right span =>
    simp only [Expr.bare, resolve, Outcome.bind_eq_ok, operand_bare]
  | bool _ | ofSet _ _ _ => exact Iff.rfl
  | int _ | filesize | count _ _ => exact iff_of_false (by rintro ⟨⟩) (by rintro ⟨⟩)

end Names

namespace RuleSet

variable {limit : Nat} {s s' : RuleSet} {decl : RuleDecl} {reject : Bool}

private theorem ruleOf_bare (decl : RuleDecl) (condition : Condition) :
    ruleOf decl.bare condition = ruleOf decl condition := by
  rw [ruleOf, ruleOf, RuleDecl.bare, List.map_map]
  rfl

private theorem namesFor_bare (s : RuleSet) (decl : RuleDecl) :
    s.namesFor decl.bare = s.namesFor decl := by
  have hstrings : (s.namesFor decl.bare).strings = (s.namesFor decl).strings :=
    List.ext_getElem (by simp [namesFor, RuleDecl.bare]) fun i h₁ h₂ => by
      simp [namesFor, RuleDecl.bare, StringDecl.bare]
  exact congrArg (fun strings => (⟨decl.name, strings, (s.namesFor decl).ruleIndex?⟩ : Names))
    hstrings

private theorem isBlock_bare {block : List Pattern} :
    IsBlock limit decl.bare block ↔ IsBlock limit decl block := by
  rw [IsBlock, IsBlock, RuleDecl.bare, List.forall₂_map_left_iff]
  simp only [Pattern.compile_bare]

private theorem push_bare : s.push limit decl.bare = .ok s' ↔ s.push limit decl = .ok s' := by
  rw [push_eq_ok, push_eq_ok]
  simp only [ruleOf_bare, namesFor_bare, isBlock_bare]
  rw [show decl.bare.condition = decl.condition.map Expr.bare from rfl]
  cases decl.condition with
  | none => simp
  | some e =>
    rw [Option.map_some]
    simp only [Option.some.injEq, exists_and_left, exists_eq_left', Names.resolve_bare]

theorem pushAll_cons_eq_ok {rules : List RuleDecl} :
    s.pushAll limit (decl :: rules) = .ok s' ↔
      ∃ s₁, s.push limit decl = .ok s₁ ∧ s₁.pushAll limit rules = .ok s' := Outcome.bind_eq_ok

theorem pushAll_bare {rules : List RuleDecl} :
    s.pushAll limit (rules.map RuleDecl.bare) = .ok s' ↔ s.pushAll limit rules = .ok s' := by
  induction rules generalizing s with
  | nil => exact Iff.rfl
  | cons rule rest ih => simp only [List.map_cons, pushAll_cons_eq_ok, push_bare, ih]

private theorem names_pushAll {rules : List RuleDecl} (h : s.pushAll limit rules = .ok s') :
    s'.names = s.names ++ rules.map RuleDecl.name := by
  induction rules generalizing s with
  | nil => rw [List.map_nil, List.append_nil, Except.ok.inj h]
  | cons rule rest ih =>
    obtain ⟨s₁, hs₁, hrest⟩ := pushAll_cons_eq_ok.mp h
    rw [ih hrest, names_push hs₁, List.map_cons, List.append_assoc, List.singleton_append]

private theorem pushAll_append_eq_ok {rules rules' : List RuleDecl} :
    s.pushAll limit (rules ++ rules') = .ok s' ↔
      ∃ s₁, s.pushAll limit rules = .ok s₁ ∧ s₁.pushAll limit rules' = .ok s' := by
  rw [pushAll, List.foldlM_append, Outcome.bind_eq_ok]
  rfl

/-- The rules that have been checked and pushed, those after them that pass the checks against
the names of all. -/
private theorem checkRules_append {declared : RuleNames} {rules rules' : List RuleDecl}
    (hd : Declares declared s) (h : Validation.checkRules reject declared rules = .ok ())
    (hp : s.pushAll limit rules = .ok s')
    (h' : ∀ declared', Declares declared' s' →
      Validation.checkRules reject declared' rules' = .ok ()) :
    Validation.checkRules reject declared (rules ++ rules') = .ok () := by
  induction rules generalizing s declared with
  | nil => exact h' declared (Except.ok.inj hp ▸ hd)
  | cons rule rest ih =>
    obtain ⟨hrule, hrest⟩ := Validation.checkRules_cons_eq_ok.mp h
    obtain ⟨s₁, hs₁, hp⟩ := pushAll_cons_eq_ok.mp hp
    exact Validation.checkRules_cons_eq_ok.mpr ⟨hrule, ih (hd.push hs₁) hrest hp⟩

/-- The checks look at the declared names one at a time. -/
private theorem checkRules_congr {declared declared' : RuleNames} {rules : List RuleDecl}
    (hd : ∀ name, declared.contains name = declared'.contains name)
    (h : Validation.checkRules reject declared rules = .ok ()) :
    Validation.checkRules reject declared' rules = .ok () := by
  induction rules generalizing declared declared' with
  | nil => rfl
  | cons rule rest ih =>
    rw [Validation.checkRules_cons_eq_ok, Validation.checkRule_eq_ok] at h ⊢
    have hinsert (name : String) : (declared.insert rule.name).contains name =
        (declared'.insert rule.name).contains name := by
      rw [Std.HashSet.contains_insert, Std.HashSet.contains_insert, hd]
    simp only [hd] at h
    exact ⟨h.1, ih hinsert h.2⟩

end RuleSet

/-! ### What sources write -/

namespace Compiler

open Grammar RuleSet
open PackageScan.Parser (Tokens)

/-- The source lexes as the tokens, these write the rules, which pass the checks of the compiler,
and pushing them leads to the set. -/
structure Writes (c : Compiler) (source : String) (ts : Tokens) (rules : List RuleDecl)
    (set : RuleSet) : Prop where
  lexes : Lexer.Lexes [] source.toList (ts.map Located.value)
  form : SourceForm ts rules
  /-- However the names of the rule set are held. -/
  checked : ∀ declared, Declares declared c.set →
    Validation.checkRules c.preferences.rejectUnreferenced declared rules = .ok ()
  pushed : c.set.pushAll c.preferences.programLimit rules = .ok set

/-- Number of tokens of a source that can be read. -/
def tokenCount (source : String) : Nat :=
  match Lexer.tokenize source with
  | .ok stream => stream.tokens.length
  | .error _ => 0

/-- Number of tokens of sources that can be read, in total. -/
def totalTokens (sources : List String) : Nat :=
  sources.foldr (fun source n => tokenCount source + n) 0

variable {c c' : Compiler} {source source' : String} {ts ts' : Tokens}
  {rules rules' : List RuleDecl} {set set' : RuleSet}

/-- An accepted source writes the rules that it is read as. -/
theorem exists_writes (h : c.outcome source = .ok (set, rules)) :
    ∃ ts, c.Writes source ts rules set ∧ ts.length = tokenCount source := by
  obtain ⟨stream, htokens, hparse, hcheck, hpush⟩ := outcome_eq_ok.mp h
  refine ⟨stream.tokens, ⟨(Lexer.lexes_of_tokenize htokens).2.2,
    Parser.parse_eq_ok.mp hparse, fun declared hd => ?_, hpush⟩, by rw [tokenCount, htokens]⟩
  -- the checks have been made with one set of the names and hold with any
  refine checkRules_congr (fun name => ?_) (Validation.check_eq_ok.mp hcheck).2
  rw [Bool.eq_iff_iff, c.declares name, hd name]

/-- A source that writes rules is accepted, unless it or the rule set is too large. -/
theorem Writes.exists_outcome (h : c.Writes source ts rules set) (hn : c.set.names.Nodup)
    (hsize : source.utf8ByteSize ≤ Limits.sourceSize) (hlength : ts.length ≤ Limits.tokenCount)
    (hroom : set.rules.size ≤ Limits.ruleCount) :
    ∃ rules', c.outcome source = .ok (set, rules') := by
  obtain ⟨stream, htokens, hvalues⟩ :=
    Lexer.exists_tokenize hsize (by rwa [List.length_map]) h.lexes
  obtain ⟨rules', hform, hbare⟩ := placeless_source hvalues h.form
  have hchecked := h.checked c.declared c.declares
  have hpushed := h.pushed
  rw [← Validation.checkRules_bare, ← hbare, Validation.checkRules_bare] at hchecked
  rw [← pushAll_bare, ← hbare, pushAll_bare] at hpushed
  -- there is room for the rules since there has been room for them one by one
  have hcount : c.declared.size + rules'.length ≤ Limits.ruleCount := by
    have hnames := congrArg List.length (names_pushAll hpushed)
    rw [List.length_append, List.length_map, length_names, length_names] at hnames
    rw [size_declared hn]
    omega
  exact ⟨rules', outcome_eq_ok.mpr ⟨stream, htokens, Parser.parse_eq_ok.mpr hform,
    Validation.check_eq_ok.mpr ⟨hcount, hchecked⟩, hpushed⟩⟩

/-- After the tokens of a source no value of a string is due. -/
theorem Writes.closed (h : c.Writes source ts rules set) :
    Lexer.Closed (ts.map Located.value).reverse := by
  rcases h.form.exists_getLast with rfl | ⟨us, s, rfl⟩
  · exact ⟨nofun, fun _ => nofun⟩
  · rw [List.map_append, List.reverse_append]
    exact ⟨nofun, fun _ => nofun⟩

/-- **Two sources in one piece** write what they write one after the other. -/
theorem Writes.append (h : c.Writes source ts rules set) (h' : c'.Writes source' ts' rules' set')
    (hset : c'.set = set) (hpreferences : c'.preferences = c.preferences) :
    c.Writes (source ++ "\n" ++ source') (ts ++ ts') (rules ++ rules') set' where
  lexes := by
    -- a source ends where a rule ends, and the next is read as from the start
    have hafter : Lexer.Lexes ((ts.map Located.value).reverse ++ []) source'.toList
        (ts'.map Located.value) := by
      rw [List.append_nil]
      exact h'.lexes.after h.closed
    rw [List.map_append, String.toList_append, String.toList_append, List.append_assoc]
    exact h.lexes.append hafter
  form := h.form.append h'.form
  checked declared hd := by
    subst hset
    exact checkRules_append hd (h.checked declared hd) h.pushed (hpreferences ▸ h'.checked)
  pushed := by
    subst hset
    exact pushAll_append_eq_ok.mpr ⟨_, h.pushed, hpreferences ▸ h'.pushed⟩

/-! ### The accepted ones of some sources -/

/-- Those of the sources that are accepted when they are added one after another. -/
def acceptedOf (c : Compiler) : List String → List String
  | [] => []
  | source :: rest =>
    match (c.add source).1 with
    | .ok () => source :: (c.add source).2.acceptedOf rest
    | .error _ => (c.add source).2.acceptedOf rest

private theorem writes_empty (c : Compiler) : c.Writes "" [] [] c.set where
  lexes := .done .blankEnd
  form := .nil
  checked _ _ := rfl
  pushed := rfl

/-- A source without tokens writes no rules. -/
private theorem Writes.of_nil (h : c.Writes source [] rules set) : rules = [] ∧ set = c.set := by
  have hform : SourceForm (⟨[], .start⟩ : TokenStream).tokens rules := h.form
  have hrules : rules = [] := (Except.ok.inj (Parser.parse_of_sourceForm hform)).symm
  subst hrules
  exact ⟨rfl, (Except.ok.inj h.pushed).symm⟩

/-- A source before others that are in one piece already. -/
theorem Writes.cons {sources : List String} (h : c.Writes source ts rules set)
    (h' : c'.Writes ("\n".intercalate sources) ts' rules' set')
    (hset : c'.set = set) (hpreferences : c'.preferences = c.preferences)
    (hempty : sources = [] → ts' = []) :
    c.Writes ("\n".intercalate (source :: sources)) (ts ++ ts') (rules ++ rules') set' := by
  cases sources with
  | nil =>
    have hts' : ts' = [] := hempty rfl
    subst hts'
    obtain ⟨rfl, rfl⟩ := h'.of_nil
    rw [String.intercalate_singleton, List.append_nil, List.append_nil, hset]
    exact h
  | cons next others =>
    rw [String.intercalate_cons_cons]
    exact h.append h' hset hpreferences

/-- A source that is rejected changes nothing that is written after it. -/
private theorem Writes.of_add_error {e : CompilationError}
    (hrejected : c.outcome source' = .error e)
    (h : (c.add source').2.Writes source ts rules set) : c.Writes source ts rules set := by
  rw [add, hrejected] at h
  exact ⟨h.lexes, h.form, h.checked, h.pushed⟩

/-- **A run in one piece.** The accepted ones of some sources, with line breaks between them, write
what leads to the rule set after all of the sources. -/
theorem exists_writes_acceptedOf (c : Compiler) (sources : List String) :
    ∃ ts rules, c.Writes ("\n".intercalate (c.acceptedOf sources)) ts rules
        (c.addAll sources).set ∧
      ts.length = totalTokens (c.acceptedOf sources) := by
  induction sources generalizing c with
  | nil => exact ⟨[], [], writes_empty c, rfl⟩
  | cons source rest ih =>
    obtain ⟨ts, rules, hwrites, hlength⟩ := ih (c.add source).2
    have hverdict : (c.add source).1 = (c.outcome source).map fun _ => () := rfl
    have hrun : c.addAll (source :: rest) = (c.add source).2.addAll rest := rfl
    rw [acceptedOf, hverdict, hrun]
    cases houtcome : c.outcome source with
    | error e => exact ⟨ts, rules, hwrites.of_add_error houtcome, hlength⟩
    | ok result =>
      -- the accepted source comes before what the others write after it
      obtain ⟨set, rules₁⟩ := result
      obtain ⟨ts₁, hwrites₁, hlength₁⟩ := exists_writes houtcome
      have hset : (c.add source).2.set = set := by
        rw [add, houtcome]
        rfl
      have hempty : (c.add source).2.acceptedOf rest = [] → ts = [] := fun h => by
        rw [h] at hlength
        exact List.length_eq_zero_iff.mp hlength
      refine ⟨ts₁ ++ ts, rules₁ ++ rules,
        hwrites₁.cons hwrites hset (preferences_add c source) hempty, ?_⟩
      rw [List.length_append, hlength₁, hlength]
      rfl

/-- **One by one and in one piece.** The accepted ones of some sources make up one source that is
accepted, if it is not too large, and leads to the same rule set. -/
theorem exists_outcome_acceptedOf {decls : List RuleDecl}
    (hb : Built c.preferences.programLimit decls c.set) (sources : List String)
    (hsize : ("\n".intercalate (c.acceptedOf sources)).utf8ByteSize ≤ Limits.sourceSize)
    (hcount : totalTokens (c.acceptedOf sources) ≤ Limits.tokenCount) :
    ∃ rules, c.outcome ("\n".intercalate (c.acceptedOf sources)) =
      .ok ((c.addAll sources).set, rules) := by
  obtain ⟨ts, rules, hwrites, hlength⟩ := exists_writes_acceptedOf c sources
  exact hwrites.exists_outcome hb.nodup_names hsize (hlength ▸ hcount)
    (built_addAll sources hb).size_le

end Compiler

end PackageScan
