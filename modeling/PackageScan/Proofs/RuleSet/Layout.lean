import PackageScan.Proofs.Log.Yielding
import PackageScan.Proofs.RuleSet.Building

/-!
# The layout of a rule set

However sources are added to a compiler, its rule set is laid out (`RuleSet.LaidOut`): names are
distinct and not too many, the table of patterns is the concatenation of one block per rule with
one pattern per string, and the condition of a rule refers to patterns of its own block and to
earlier rules.

Evaluating a condition takes an index out of range for a string that does not occur or a rule
that is false. `Facts.evaluate?` does without these defaults and has no answer there. On rule sets
that are laid out, it always has one (`RuleSet.results?_eq_some`), so that no scan falls back on a
default.
-/

namespace PackageScan

/-! ### Evaluating without defaults -/

namespace Facts

/-- Value of an operand, if its pattern is there. -/
def value? (facts : Facts) : Operand → Option Int
  | .int value => some value
  | .filesize => some facts.filesize
  | .count pattern => facts.counts[pattern]?.map fun n => min n integerCap

/-- Truth value of a condition, if all its patterns and rules are there. -/
def evaluate? (facts : Facts) : Condition → Option Bool
  | .bool value => some value
  | .found pattern => facts.counts[pattern]?.map fun n => 0 < n
  | .rule index => facts.results[index]?
  | .not operand => do
    let value ← facts.evaluate? operand
    some !value
  | .and left right => do
    let l ← facts.evaluate? left
    let r ← facts.evaluate? right
    some (l && r)
  | .or left right => do
    let l ← facts.evaluate? left
    let r ← facts.evaluate? right
    some (l || r)
  | .compare op left right => do
    let l ← facts.value? left
    let r ← facts.value? right
    some (op.holds l r)
  | .ofSet quantifier patterns => do
    let counts ← patterns.mapM fun p => facts.counts[p]?
    some (quantifier.holds (counts.countP fun n => 0 < n) patterns.length)

variable {facts : Facts}

private theorem getElem?_counts {p : Nat} (h : p < facts.counts.size) :
    facts.counts[p]? = some (facts.count p) := by
  rw [count, Array.getD_eq_getD_getElem?, Array.getElem?_eq_getElem h, Option.getD_some]

private theorem value?_of_within {o : Operand} (h : o.Within (· < facts.counts.size)) :
    facts.value? o = some (facts.value o) := by
  cases o with
  | int _ | filesize => rfl
  | count pattern =>
    rw [value?, getElem?_counts h]
    rfl

private theorem mapM_counts {patterns : List Nat} (h : ∀ p ∈ patterns, p < facts.counts.size) :
    patterns.mapM (fun p => facts.counts[p]?) = some (patterns.map facts.count) := by
  induction patterns with
  | nil => rfl
  | cons p patterns ih =>
    obtain ⟨hp, hrest⟩ := List.forall_mem_cons.mp h
    rw [List.mapM_cons, getElem?_counts hp, ih hrest]
    rfl

/-- In range, defaults make no difference. -/
private theorem evaluate?_of_within {c : Condition}
    (h : c.Within (· < facts.counts.size) (· < facts.results.size)) :
    facts.evaluate? c = some (facts.evaluate c) := by
  induction c with
  | bool value => rfl
  | found pattern =>
    rw [evaluate?, getElem?_counts h]
    rfl
  | rule index =>
    rw [evaluate?, evaluate, Array.getD_eq_getD_getElem?, Array.getElem?_eq_getElem h,
      Option.getD_some]
  | not operand ih =>
    rw [evaluate?, ih h]
    rfl
  | and left right ihl ihr | or left right ihl ihr =>
    rw [evaluate?, ihl h.1, ihr h.2]
    rfl
  | compare op left right =>
    rw [evaluate?, value?_of_within h.1, value?_of_within h.2]
    rfl
  | ofSet quantifier patterns =>
    rw [evaluate?, mapM_counts h, evaluate, Option.bind_eq_bind, Option.bind_some,
      List.countP_map]
    rfl

end Facts

namespace RuleSet

variable {limit : Nat} {s s' : RuleSet} {decl : RuleDecl} {decls : List RuleDecl}

/-! ### Laid out rule sets -/

/-- Where the block of a rule begins. -/
def blockStart (blocks : List (List Pattern)) (k : Nat) : Nat := (blocks.take k).flatten.length

/-- The rule set holds the rules `decls`, the patterns of each in one of `blocks`. -/
structure LaidOut (limit : Nat) (decls : List RuleDecl) (blocks : List (List Pattern))
    (s : RuleSet) : Prop where
  /-- The rules are those that are declared, in the order of declaration. -/
  names_eq : s.names = decls.map RuleDecl.name
  /-- No two rules share a name. -/
  nodup_names : s.names.Nodup
  /-- There are not too many rules. -/
  size_le : s.rules.size ≤ Limits.ruleCount
  /-- The table is the concatenation of the blocks. -/
  patterns_eq : s.patterns.toList = blocks.flatten
  /-- There is a block for each rule, with a pattern for each string. -/
  isBlock : List.Forall₂ (IsBlock limit) decls blocks
  /-- A condition refers to the block of its rule and to earlier rules. -/
  within : ∀ k (hk : k < s.rules.size), s.rules[k].condition.Within
    (fun p => blockStart blocks k ≤ p ∧ p < blockStart blocks (k + 1)) (· < k)

private theorem laidOut_empty (limit : Nat) : LaidOut limit [] [] .empty where
  names_eq := rfl
  nodup_names := List.nodup_nil
  size_le := Nat.zero_le _
  patterns_eq := rfl
  isBlock := .nil
  within _ hk := absurd hk (Nat.not_lt_zero _)

private theorem blockStart_append {blocks : List (List Pattern)} {k : Nat} (hk : k ≤ blocks.length)
    (block : List Pattern) : blockStart (blocks ++ [block]) k = blockStart blocks k := by
  rw [blockStart, List.take_append_of_le_length hk, blockStart]

private theorem blockStart_length (blocks : List (List Pattern)) :
    blockStart blocks blocks.length = blocks.flatten.length := by
  rw [blockStart, List.take_length]

/-- **A push keeps the layout.** The new block comes last and the new condition refers to it. -/
theorem LaidOut.push {blocks : List (List Pattern)} (h : LaidOut limit decls blocks s)
    (hfresh : decl.name ∉ s.names) (hroom : s.rules.size < Limits.ruleCount)
    (hp : s.push limit decl = .ok s') :
    ∃ block, LaidOut limit (decls ++ [decl]) (blocks ++ [block]) s' := by
  have hnames := names_push hp
  obtain ⟨e, block, condition, -, hblock, hcondition, rfl⟩ := push_eq_ok.mp hp
  have hlength : blocks.length = s.rules.size := by
    rw [← h.isBlock.length_eq, ← length_names, h.names_eq, List.length_map]
  have hsize : blocks.flatten.length = s.patterns.size := by
    rw [← h.patterns_eq, Array.length_toList]
  refine ⟨block, ?_, ?_, ?_, ?_, ?_, ?_⟩
  · rw [hnames, h.names_eq, List.map_append, List.map_singleton]
  · exact nodup_names_push h.nodup_names hfresh hp
  · rw [Array.size_push]
    exact hroom
  · simp [h.patterns_eq]
  · exact List.rel_append h.isBlock (.cons hblock .nil)
  · intro k hk
    rw [Array.size_push] at hk
    rcases Nat.lt_succ_iff_lt_or_eq.mp hk with hk | rfl
    · rw [Array.getElem_push_lt hk, blockStart_append (by omega), blockStart_append (by omega)]
      exact h.within k hk
    · -- the new rule: its block is what the table is extended by
      rw [Array.getElem_push_eq, ← hlength, blockStart_append (Nat.le_refl _), blockStart_length,
        hsize]
      have hend : blockStart (blocks ++ [block]) (blocks.length + 1) =
          s.patterns.size + decl.strings.length := by
        rw [blockStart, List.take_of_length_le (by simp), List.flatten_append, List.length_append,
          hsize, List.flatten_singleton, hblock.length_eq]
      rw [hend, hlength]
      exact resolve_within hcondition

private theorem Built.exists_laidOut (h : Built limit decls s) :
    ∃ blocks, LaidOut limit decls blocks s := by
  induction h with
  | empty => exact ⟨[], laidOut_empty limit⟩
  | @push decls s s' declared reject decl _ hd hc hroom _ hp ih =>
    obtain ⟨blocks, ih⟩ := ih
    obtain ⟨block, h⟩ := ih.push (hd.fresh hc) hroom hp
    exact ⟨blocks ++ [block], h⟩

/-! ### Scanning without defaults -/

/-- What is known when a rule is evaluated. -/
def factsAfter (s : RuleSet) (data : ByteArray) (results : Array Bool) : Facts where
  counts := s.counts data
  filesize := min data.size integerCap
  results := results

/-- The truth values of the rules, if no lookup fails. -/
def results? (s : RuleSet) (data : ByteArray) : Option (Array Bool) :=
  s.rules.toList.foldlM (fun results rule => do
    let value ← (s.factsAfter data results).evaluate? rule.condition
    some (results.push value)) #[]

theorem results_eq_foldl (s : RuleSet) (data : ByteArray) :
    s.results data = s.rules.toList.foldl (fun results rule =>
      results.push ((s.factsAfter data results).evaluate rule.condition)) #[] := by
  rw [Array.foldl_toList]
  rfl

private theorem foldlM_evaluate? {s : RuleSet} {data : ByteArray} {rules : List CompiledRule}
    {results : Array Bool}
    (h : ∀ k (hk : k < rules.length), rules[k].condition.Within (· < s.patterns.size)
      (· < results.size + k)) :
    rules.foldlM (fun results rule => do
        let value ← (s.factsAfter data results).evaluate? rule.condition
        some (results.push value)) results =
      some (rules.foldl (fun results rule =>
        results.push ((s.factsAfter data results).evaluate rule.condition)) results) := by
  -- the results so far belong to the rules before the list, hence the shift of the indices
  induction rules generalizing results with
  | nil => rfl
  | cons rule rules ih =>
    have hrule : (s.factsAfter data results).evaluate? rule.condition =
        some ((s.factsAfter data results).evaluate rule.condition) := by
      refine Facts.evaluate?_of_within ?_
      have hcounts : (s.factsAfter data results).counts.size = s.patterns.size := by
        simp [factsAfter, counts]
      rw [hcounts]
      exact h 0 (Nat.zero_lt_succ _)
    rw [List.foldlM_cons, hrule, List.foldl_cons]
    refine ih fun k hk => ?_
    rw [Array.size_push, Nat.add_assoc, Nat.add_comm 1 k]
    exact h (k + 1) (Nat.succ_lt_succ hk)

private theorem LaidOut.blockStart_le {blocks : List (List Pattern)}
    (h : LaidOut limit decls blocks s)
    (k : Nat) : blockStart blocks k ≤ s.patterns.size := by
  have hsplit : blocks.flatten = (blocks.take k).flatten ++ (blocks.drop k).flatten := by
    rw [← List.flatten_append, List.take_append_drop]
  rw [← Array.length_toList, h.patterns_eq, hsplit, List.length_append]
  exact Nat.le_add_right _ _

/-- **No scan falls back on a default.** -/
theorem LaidOut.results?_eq_some {blocks : List (List Pattern)}
    (h : LaidOut limit decls blocks s) (data : ByteArray) :
    s.results? data = some (s.results data) := by
  rw [results?, results_eq_foldl]
  refine foldlM_evaluate? fun k hk => ?_
  have hk' : k < s.rules.size := by rwa [Array.length_toList] at hk
  refine (h.within k hk').imp (fun p hp => ?_) fun i hi => ?_
  · exact Nat.lt_of_lt_of_le hp.2 (h.blockStart_le _)
  · rw [Array.size_empty, Nat.zero_add]
    exact hi

end RuleSet

namespace Compiler

/-- **The layout of every reachable rule set.** After any sources, accepted and rejected ones in
any order and under any preferences, the rule set is laid out by the rules of the accepted ones,
and scanning it looks up nothing that is not there. -/
theorem laidOut_addEach (preferences : CompilerPreferences) (sources : List String)
    (j : Journal) :
    let start : Compiler := { preferences }
    let c := ((start.addEach sources).run j).1
    (∃ blocks, RuleSet.LaidOut preferences.programLimit (start.declarations sources) blocks
        c.set) ∧
      ∀ data, c.set.results? data = some (c.set.results data) := by
  intro start c
  have hc : c = start.addAll sources := addEach_yields start sources j
  have hstart : RuleSet.Built start.preferences.programLimit [] start.set := .empty
  have hb : RuleSet.Built preferences.programLimit (start.declarations sources) c.set := by
    rw [hc]
    exact built_addAll sources hstart
  obtain ⟨blocks, h⟩ := hb.exists_laidOut
  exact ⟨⟨blocks, h⟩, h.results?_eq_some⟩

end Compiler

end PackageScan
