import Mathlib.Data.List.Nodup
import PackageScan.Proofs.Rule.ParserSound
import PackageScan.Proofs.RuleSet.Resolving
import PackageScan.RuleSet.Compiler

/-!
# How rule sets come about

A rule set that a compiler holds has been built from the empty one by pushing rules, each of them
checked against the names pushed before it, while there was room for it. `RuleSet.Built` says so
and keeps the declarations that have been pushed, so that what holds of every rule set of a
compiler is an induction over the pushes of one rule and does not look at sources again.

* **Pushing** a rule adds one block of patterns and one rule (`RuleSet.push_eq_ok`), whose
  condition refers to that block and to earlier rules only (`RuleSet.resolve_within`). So no
  condition refers to a pattern beyond the table (`RuleSet.IsClosed.push`).
* **Adding** a source pushes its rules or changes nothing (`Compiler.built_add`), and so the rule
  set after any sources is built from the rules of the accepted ones (`Compiler.built_addAll`).
-/

namespace PackageScan

namespace RuleSet

variable {limit : Nat} {s s' : RuleSet} {decl : RuleDecl}

/-! ### Pushing a rule -/

/-- The patterns of the strings of a rule, one for each. -/
def IsBlock (limit : Nat) (decl : RuleDecl) (block : List Pattern) : Prop :=
  List.Forall₂ (fun string p => Pattern.compile limit string = .ok p) decl.strings block

/-- A rule is pushed when it has a condition, its strings compile and the condition resolves. -/
theorem push_eq_ok : s.push limit decl = .ok s' ↔
    ∃ e block condition, decl.condition = some e ∧ IsBlock limit decl block ∧
      (s.namesFor decl).resolve e = .ok condition ∧
      s' = ⟨s.rules.push (ruleOf decl condition), s.patterns ++ block⟩ := by
  rw [push]
  cases decl.condition with
  | none => simp
  | some e =>
    simp only [Outcome.bind_eq_ok, compileStrings, Outcome.mapM_eq_ok, Option.some.injEq,
      Except.ok.injEq, IsBlock]
    constructor
    · rintro ⟨block, hblock, condition, hcondition, rfl⟩
      exact ⟨e, block, condition, rfl, hblock, hcondition, rfl⟩
    · rintro ⟨_, block, condition, rfl, hblock, hcondition, rfl⟩
      exact ⟨block, hblock, condition, hcondition, rfl⟩

/-- A push adds one rule, and one pattern for each of its strings. -/
theorem size_push (h : s.push limit decl = .ok s') :
    s'.rules.size = s.rules.size + 1 ∧
      s'.patterns.size = s.patterns.size + decl.strings.length := by
  obtain ⟨e, block, condition, -, hblock, -, rfl⟩ := push_eq_ok.mp h
  refine ⟨Array.size_push _, ?_⟩
  rw [← Array.length_toList, Array.toList_appendList, List.length_append, Array.length_toList,
    hblock.length_eq]

theorem length_names (s : RuleSet) : s.names.length = s.rules.size := by
  rw [names, List.length_map, Array.length_toList]

theorem names_push (h : s.push limit decl = .ok s') : s'.names = s.names ++ [decl.name] := by
  obtain ⟨e, block, condition, -, -, -, rfl⟩ := push_eq_ok.mp h
  simp [names, ruleOf]

/-- Names stay distinct when a rule with a fresh name is pushed. -/
theorem nodup_names_push (h : s.names.Nodup) (hfresh : decl.name ∉ s.names)
    (hp : s.push limit decl = .ok s') : s'.names.Nodup := by
  rw [names_push hp]
  exact List.nodup_append.mpr ⟨h, List.nodup_singleton _, fun a ha b hb hab =>
    hfresh (by rw [← List.mem_singleton.mp hb, ← hab]; exact ha)⟩

/-! ### What names mean in a rule that is pushed -/

theorem namesFor_fst (s : RuleSet) (decl : RuleDecl) :
    (s.namesFor decl).strings.map Prod.fst = decl.stringNames := by
  refine List.ext_getElem (by simp [namesFor, RuleDecl.stringNames]) fun i h₁ h₂ => ?_
  simp [namesFor, RuleDecl.stringNames]

/-- The strings of a rule are numbered from the size of the table on. -/
private theorem namesFor_snd (s : RuleSet) (decl : RuleDecl) :
    (s.namesFor decl).strings.map Prod.snd =
      List.range' s.patterns.size decl.strings.length := by
  refine List.ext_getElem (by simp [namesFor]) fun i h₁ h₂ => ?_
  simp [namesFor]

theorem nodup_namesFor_snd (s : RuleSet) (decl : RuleDecl) :
    ((s.namesFor decl).strings.map Prod.snd).Nodup := by
  rw [namesFor_snd]
  exact List.nodup_range'

/-- The index of a rule that is there is in range and is that of a rule with the name. -/
theorem getElem_of_ruleIndex? {name : String} {i : Nat}
    (h : (s.namesFor decl).ruleIndex? name = some i) :
    ∃ hi : i < s.rules.size, s.rules[i].name = name := by
  obtain ⟨hi, hname, -⟩ := Array.findIdx?_eq_some_iff_getElem.mp h
  exact ⟨hi, beq_iff_eq.mp hname⟩

theorem isSome_ruleIndex? {name : String} :
    ((s.namesFor decl).ruleIndex? name).isSome = true ↔ name ∈ s.names := by
  rw [namesFor, names, Array.findIdx?_isSome, ← Array.any_toList, List.any_eq_true]
  simp

/-- **A pushed condition looks back.** It refers to the block that is appended with it and to the
rules that are there already. -/
theorem resolve_within {e : Expr} {c : Condition} (h : (s.namesFor decl).resolve e = .ok c) :
    c.Within (fun p => s.patterns.size ≤ p ∧ p < s.patterns.size + decl.strings.length)
      (· < s.rules.size) := by
  refine (Names.within_of_resolve h).imp (fun p hp => ?_) fun i ⟨name, hi⟩ => ?_
  · rw [namesFor_snd, List.mem_range'_1] at hp
    exact hp
  · exact (getElem_of_ruleIndex? hi).1

/-! ### Closed rule sets -/

/-- No condition refers to a pattern beyond the table. -/
def IsClosed (s : RuleSet) : Prop :=
  ∀ rule ∈ s.rules, rule.condition.Within (· < s.patterns.size) fun _ => True

private theorem isClosed_empty :
    IsClosed .empty := fun rule h => absurd h (Array.not_mem_empty rule)

/-- **A push keeps a set closed.** The new condition refers to the block that comes with it. -/
theorem IsClosed.push (hs : s.IsClosed) (h : s.push limit decl = .ok s') : s'.IsClosed := by
  have hsize := (size_push h).2
  obtain ⟨e, block, condition, -, -, hresolve, rfl⟩ := push_eq_ok.mp h
  intro rule hrule
  change rule.condition.Within (· < (s.patterns ++ block).size) _
  rw [hsize]
  rcases Array.mem_push.mp hrule with hrule | rfl
  · exact (hs rule hrule).imp (fun p hp => by omega) fun _ _ => trivial
  · exact (resolve_within hresolve).imp (fun p hp => hp.2) fun _ _ => trivial

/-! ### Checked rules -/

/-- The names that the rules of a source are checked against are those of the set. -/
def Declares (declared : RuleNames) (s : RuleSet) : Prop :=
  ∀ name, declared.contains name = true ↔ name ∈ s.names

/-- The name of a checked rule is not taken. -/
theorem Declares.fresh {declared : RuleNames} {reject : Bool} (hd : Declares declared s)
    (hc : Validation.checkRule decl declared reject = .ok ()) : decl.name ∉ s.names := by
  rw [← hd, (Validation.checkRule_eq_ok.mp hc).1]
  exact Bool.false_ne_true

/-- **Validator and resolver agree on one rule.** The condition of a checked rule resolves, and
its sets are proper. -/
theorem exists_resolve_of_checkRule {declared : RuleNames} {reject : Bool}
    (hd : Declares declared s) (hc : Validation.checkRule decl declared reject = .ok ())
    (hl : decl.ListsItems) :
    ∃ e c, decl.condition = some e ∧ (s.namesFor decl).resolve e = .ok c ∧ c.ProperSets := by
  obtain ⟨-, -, -, e, he, htyped, hknown, -⟩ := Validation.checkRule_eq_ok.mp hc
  have hscoped : e.Scoped ((s.namesFor decl).strings.map Prod.fst)
      fun name => ((s.namesFor decl).ruleIndex? name).isSome = true := by
    rw [namesFor_fst]
    refine Expr.scoped_of_known htyped (fun part hpart => ?_) (hl e he)
    have hrules : (fun name => ((s.namesFor decl).ruleIndex? name).isSome = true) =
        fun name => declared.contains name = true :=
      funext fun name => propext (isSome_ruleIndex?.trans (hd name).symm)
    rw [hrules]
    exact hknown part hpart
  obtain ⟨c, hc, hp⟩ := Names.exists_resolve_of_scoped (nodup_namesFor_snd s decl) hscoped
  exact ⟨e, c, he, hc, hp⟩

/-- Once a rule is pushed, its name is declared too. -/
theorem Declares.push {declared : RuleNames} (hd : Declares declared s)
    (h : s.push limit decl = .ok s') : Declares (declared.insert decl.name) s' := by
  intro name
  rw [Std.HashSet.contains_insert, names_push h, List.mem_append, List.mem_singleton,
    Bool.or_eq_true, hd name, beq_iff_eq, or_comm, eq_comm]

/-! ### Built rule sets -/

/-- `Built limit decls s`: pushing the rules `decls` on the empty set has led to `s`; each was
checked against the names of those before it, there was room for it, and its condition is one
that the grammar derives. -/
inductive Built (limit : Nat) : List RuleDecl → RuleSet → Prop
  | empty : Built limit [] .empty
  | push {decls : List RuleDecl} {s s' : RuleSet} {declared : RuleNames} {reject : Bool}
      {decl : RuleDecl} : Built limit decls s → Declares declared s →
      Validation.checkRule decl declared reject = .ok () → s.rules.size < Limits.ruleCount →
      decl.ListsItems → s.push limit decl = .ok s' → Built limit (decls ++ [decl]) s'

namespace Built

variable {decls : List RuleDecl}

theorem isClosed (h : Built limit decls s) : s.IsClosed := by
  induction h with
  | empty => exact isClosed_empty
  | push _ _ _ _ _ hp ih => exact ih.push hp

/-- The rules are named as they are declared, in the order of declaration. -/
theorem names_eq (h : Built limit decls s) : s.names = decls.map RuleDecl.name := by
  induction h with
  | empty => rfl
  | push _ _ _ _ _ hp ih => rw [names_push hp, ih, List.map_append, List.map_singleton]

theorem nodup_names (h : Built limit decls s) : s.names.Nodup := by
  induction h with
  | empty => exact List.nodup_nil
  | push _ hd hc _ _ hp ih => exact nodup_names_push ih (hd.fresh hc) hp

theorem size_le (h : Built limit decls s) : s.rules.size ≤ Limits.ruleCount := by
  cases h with
  | empty => exact Nat.zero_le _
  | push _ _ _ hroom _ hp =>
    obtain ⟨e, block, condition, -, -, -, rfl⟩ := push_eq_ok.mp hp
    rw [Array.size_push]
    exact hroom

/-- Pushing checked rules one after another. -/
theorem pushAll {reject : Bool} {declared : RuleNames} {rules : List RuleDecl}
    (hb : Built limit decls s) (hd : Declares declared s)
    (hc : Validation.checkRules reject declared rules = .ok ())
    (hroom : s.rules.size + rules.length ≤ Limits.ruleCount)
    (hl : ∀ rule ∈ rules, rule.ListsItems) (hp : s.pushAll limit rules = .ok s') :
    Built limit (decls ++ rules) s' := by
  -- what a push adds to the set it adds to the names that the next rule is checked against
  induction rules generalizing decls s declared with
  | nil =>
    rw [List.append_nil]
    exact Except.ok.inj hp ▸ hb
  | cons rule rest ih =>
    obtain ⟨hrule, hrest⟩ := Validation.checkRules_cons_eq_ok.mp hc
    obtain ⟨s₁, hs₁, hp⟩ := Outcome.bind_eq_ok.mp hp
    rw [List.length_cons] at hroom
    have hb₁ := hb.push hd hrule (by omega) (hl rule List.mem_cons_self) hs₁
    have hsize := (size_push hs₁).1
    rw [List.append_cons]
    exact ih hb₁ (hd.push hs₁) hrest (by omega)
      (fun r hr => hl r (List.mem_cons_of_mem _ hr)) hp

end Built

end RuleSet

/-! ### Compilers -/

namespace Compiler

open RuleSet (Built Declares)

variable {c : Compiler} {source : String} {decls : List RuleDecl}

theorem declares (c : Compiler) : Declares c.declared c.set := fun name => by
  rw [declared, Std.HashSet.contains_ofList, List.contains_iff_mem]

theorem size_declared (h : c.set.names.Nodup) : c.declared.size = c.set.rules.size := by
  rw [declared, Std.HashSet.size_ofList, RuleSet.length_names]
  exact h.imp fun hne => beq_eq_false_iff_ne.mpr hne

/-- A source is accepted when it can be read, its rules are accepted by the checks and they can be
pushed. -/
theorem outcome_eq_ok {set : RuleSet} {rules : List RuleDecl} :
    c.outcome source = .ok (set, rules) ↔
      ∃ tokens, Lexer.tokenize source = .ok tokens ∧ Parser.parse tokens = .ok rules ∧
        Validation.check rules c.declared c.preferences.rejectUnreferenced = .ok () ∧
        c.set.pushAll c.preferences.programLimit rules = .ok set := by
  simp only [outcome, Outcome.bind_eq_ok, Outcome.mapError_eq_ok, Except.ok.injEq,
    Prod.mk.injEq]
  constructor
  · rintro ⟨tokens, ht, rules', hr, _, hc, set', hp, rfl, rfl⟩
    exact ⟨tokens, ht, hr, hc, hp⟩
  · rintro ⟨tokens, ht, hr, hc, hp⟩
    exact ⟨tokens, ht, rules, hr, (), hc, set, hp, rfl, rfl⟩

/-- The rules that a source is read as, if it can be read. -/
def rulesIn? (source : String) : Option (List RuleDecl) :=
  (Lexer.tokenize source).toOption.bind fun tokens => (Parser.parse tokens).toOption

theorem rulesIn?_eq_some {rules : List RuleDecl} :
    rulesIn? source = some rules ↔
      ∃ tokens, Lexer.tokenize source = .ok tokens ∧ Parser.parse tokens = .ok rules := by
  rw [rulesIn?]
  cases Lexer.tokenize source with
  | error e => simp [Except.toOption]
  | ok tokens => cases h : Parser.parse tokens <;> simp [Except.toOption, h]

/-- What a source is read as does not depend on the compiler. -/
theorem outcome_eq_ok_iff_rulesIn? {set : RuleSet} {rules : List RuleDecl} :
    c.outcome source = .ok (set, rules) ↔
      rulesIn? source = some rules ∧
        Validation.check rules c.declared c.preferences.rejectUnreferenced = .ok () ∧
        c.set.pushAll c.preferences.programLimit rules = .ok set := by
  rw [outcome_eq_ok, rulesIn?_eq_some]
  constructor
  · rintro ⟨tokens, htokens, hparse, hchecked⟩
    exact ⟨⟨tokens, htokens, hparse⟩, hchecked⟩
  · rintro ⟨⟨tokens, htokens, hparse⟩, hchecked⟩
    exact ⟨tokens, htokens, hparse, hchecked⟩

/-- **An accepted source** pushes its rules. -/
theorem built_outcome {set : RuleSet} {rules : List RuleDecl}
    (hb : Built c.preferences.programLimit decls c.set)
    (h : c.outcome source = .ok (set, rules)) :
    Built c.preferences.programLimit (decls ++ rules) set := by
  obtain ⟨tokens, -, hparse, hcheck, hp⟩ := outcome_eq_ok.mp h
  obtain ⟨hroom, hrules⟩ := Validation.check_eq_ok.mp hcheck
  rw [size_declared hb.nodup_names] at hroom
  exact hb.pushAll c.declares hrules hroom
    (Parser.sourceForm_of_parse hparse).listsItems hp

/-- The rules that a source adds: none if it is rejected. -/
def rulesOf (c : Compiler) (source : String) : List RuleDecl :=
  match c.outcome source with
  | .ok (_, rules) => rules
  | .error _ => []

/-- The rules of the accepted ones of some sources, in the order of declaration. -/
def declarations (c : Compiler) : List String → List RuleDecl
  | [] => []
  | source :: rest => c.rulesOf source ++ (c.add source).2.declarations rest

@[simp] theorem preferences_add (c : Compiler) (source : String) :
    (c.add source).2.preferences = c.preferences := by
  rw [add]
  cases c.outcome source <;> rfl

theorem preferences_addAll (c : Compiler) (sources : List String) :
    (c.addAll sources).preferences = c.preferences := by
  induction sources generalizing c with
  | nil => rfl
  | cons source rest ih => exact (ih _).trans (preferences_add c source)

/-- **A step.** A source pushes its rules if it is accepted, and none otherwise. -/
theorem built_add (source : String) (hb : Built c.preferences.programLimit decls c.set) :
    Built c.preferences.programLimit (decls ++ c.rulesOf source) (c.add source).2.set := by
  rw [add, rulesOf]
  cases h : c.outcome source with
  | error e =>
    rw [List.append_nil]
    exact hb
  | ok result => exact built_outcome hb h

/-- **A run.** After any sources, the rule set is built from the rules of the accepted ones. -/
theorem built_addAll (sources : List String)
    (hb : Built c.preferences.programLimit decls c.set) :
    Built c.preferences.programLimit (decls ++ c.declarations sources)
      (c.addAll sources).set := by
  induction sources generalizing c decls with
  | nil =>
    rw [declarations, List.append_nil]
    exact hb
  | cons source rest ih =>
    have hstep := built_add source hb
    rw [← preferences_add c source] at hstep ⊢
    rw [declarations, ← List.append_assoc]
    exact ih hstep

/-! ### The smallest source -/

/-- A source with one rule, which is always true. -/
def smallest : String := "rule a \x7bcondition:true\x7d"

/-- The rule of the smallest source. -/
def alwaysTrue : RuleDecl where
  name := "a"
  span := ⟨.start, ⟨23, 1, 24⟩⟩
  isPrivate := false
  isGlobal := false
  tags := []
  metaEntries := []
  strings := []
  condition := some (.bool true)

/-- The rule set of the smallest source. -/
def smallestSet : RuleSet := ⟨#[RuleSet.ruleOf alwaysTrue (.bool true)], #[]⟩

/-- A rule without strings is accepted if its name is new, its condition makes sense and there is
room for it. -/
theorem outcome_plain (decl : RuleDecl) {e : Expr} {condition : Condition}
    (hread : rulesIn? source = some [decl]) (hstrings : decl.strings = [])
    (hcondition : decl.condition = some e) (hnodup : c.set.names.Nodup)
    (hroom : c.set.rules.size < Limits.ruleCount) (hfresh : decl.name ∉ c.set.names)
    (htyped : e.WellTyped) (hknown : ∀ part ∈ e.subterms, part.Known [] (· ∈ c.set.names))
    (hresolve : (c.set.namesFor decl).resolve e = .ok condition) :
    c.outcome source =
      .ok (⟨c.set.rules.push (RuleSet.ruleOf decl condition), c.set.patterns⟩, [decl]) := by
  have hnames : decl.stringNames = [] := by rw [RuleDecl.stringNames, hstrings, List.map_nil]
  have hrule : Validation.checkRule decl c.declared c.preferences.rejectUnreferenced = .ok () := by
    rw [Validation.checkRule_eq_ok, hnames, hstrings]
    refine ⟨Bool.eq_false_iff.mpr fun h => hfresh ((c.declares _).mp h), Nat.zero_le _,
      ⟨List.nodup_nil, List.forall_mem_nil _⟩, e, hcondition, htyped, fun part hpart => ?_,
      fun _ s h => ?_⟩
    · rw [funext fun name => propext (c.declares name)]
      exact hknown part hpart
    · rw [hstrings] at h
      exact absurd h List.not_mem_nil
  have hblock : RuleSet.IsBlock c.preferences.programLimit decl [] := by
    rw [RuleSet.IsBlock, hstrings]
    exact .nil
  have hpush : c.set.push c.preferences.programLimit decl =
      .ok ⟨c.set.rules.push (RuleSet.ruleOf decl condition), c.set.patterns⟩ :=
    RuleSet.push_eq_ok.mpr ⟨e, [], condition, hcondition, hblock, hresolve, by simp⟩
  refine outcome_eq_ok_iff_rulesIn?.mpr ⟨hread, Validation.check_eq_ok.mpr ⟨?_,
    Validation.checkRules_cons_eq_ok.mpr ⟨hrule, rfl⟩⟩, Outcome.bind_eq_ok.mpr ⟨_, hpush, rfl⟩⟩
  rw [size_declared hnodup]
  exact hroom

/-- The smallest source is accepted. -/
theorem outcome_smallest :
    ({} : Compiler).outcome smallest = .ok (smallestSet, [alwaysTrue]) :=
  outcome_plain alwaysTrue (by decide +kernel) rfl rfl List.nodup_nil (by decide) (by decide)
    trivial (List.forall_mem_cons.mpr ⟨trivial, List.forall_mem_nil _⟩) rfl

end Compiler

end PackageScan
