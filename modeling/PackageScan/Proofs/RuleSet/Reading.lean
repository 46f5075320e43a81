import Mathlib.Data.List.Forall2
import PackageScan.Proofs.Dictionary
import PackageScan.Proofs.Ordered
import PackageScan.Proofs.Rule.Lexing
import PackageScan.Proofs.RuleSet.Deciding
import PackageScan.Proofs.RuleSet.Layout

/-!
# Reading rules by name

The direct meaning of a source, in terms of the names in it. A `Reading` holds what is known when
a rule is judged: the numbers of occurrences of the rule's own strings by their names, the size of
the data, and the truth values of the rules before it by theirs. `Reading.truth?` evaluates a
condition as it is written, with integers of sixty-four bits; `judge?` goes through the rules in
the order of declaration; `report?` keeps those to report.

Neither indices nor tables occur here, and a name that means nothing has no value. Compiling a
source and scanning with the result is the same as reading it (`RuleSet.reading_of_compile`):

* conditions agree when names mean to the reading what their indices mean to the compiled
  condition (`Reading.truth?_eq_evaluate`);
* rules agree one after another, since a push leaves the truth values of earlier rules alone
  (`RuleSet.results_push`) and adds one that is read from them (`RuleSet.Built.exists_judged`).
-/

namespace PackageScan

/-! ### Integers of sixty-four bits -/

/-- A size or a number of occurrences; what does not fit is taken for the largest integer. -/
def saturated (n : Nat) : Int64 := if n < 2 ^ 63 then Int64.ofNat n else Int64.maxValue

private theorem toInt_saturated (n : Nat) : (saturated n).toInt = min (n : Int) integerCap := by
  rw [saturated, integerCap]
  split_ifs with h
  · rw [Int64.toInt_ofNat_of_lt h]
    omega
  · rw [Int64.toInt_maxValue]
    omega

/-- Does the comparison hold of two integers of sixty-four bits? -/
def Comparison.relates : Comparison → Int64 → Int64 → Bool
  | .equal, a, b => a == b
  | .notEqual, a, b => a != b
  | .less, a, b => a < b
  | .lessEqual, a, b => a ≤ b
  | .greater, a, b => a > b
  | .greaterEqual, a, b => a ≥ b

private theorem Comparison.relates_eq_holds (op : Comparison) (a b : Int64) :
    op.relates a b = op.holds a.toInt b.toInt := by
  have hbeq : (a == b) = (a.toInt == b.toInt) := by
    rw [Bool.eq_iff_iff, beq_iff_eq, beq_iff_eq, Int64.toInt_inj]
  cases op with
  | equal => exact hbeq
  | notEqual => exact congrArg (!·) hbeq
  | less => exact decide_eq_decide.mpr Int64.lt_iff_toInt_lt
  | lessEqual => exact decide_eq_decide.mpr Int64.le_iff_toInt_le
  | greater => exact decide_eq_decide.mpr Int64.lt_iff_toInt_lt
  | greaterEqual => exact decide_eq_decide.mpr Int64.le_iff_toInt_le

/-! ### Conditions as they are written -/

/-- Do as many of some strings occur as is asked for? The strings are given by their numbers of
occurrences. -/
def Quantifier.asks : Quantifier → List Nat → Bool
  | .any, counts => counts.any fun n => 0 < n
  | .all, counts => counts.all fun n => 0 < n
  | .none, counts => !counts.any fun n => 0 < n
  | .atLeast k, counts => k ≤ ((counts.filter fun n => 0 < n).length : Int)

private theorem Quantifier.asks_eq_holds (q : Quantifier) (counts : List Nat) :
    q.asks counts = q.holds (counts.countP fun n => 0 < n) counts.length := by
  have hany : counts.any (fun n => decide (0 < n)) =
      decide (0 < counts.countP fun n => 0 < n) := by
    rw [Bool.eq_iff_iff, List.any_eq_true, decide_eq_true_iff, List.countP_pos_iff]
  cases q with
  | any => exact hany
  | all =>
    rw [asks, holds, Bool.eq_iff_iff, List.all_eq_true, beq_iff_eq, List.countP_eq_length]
  | none =>
    rw [asks, hany, holds]
    by_cases h : 0 < counts.countP fun n => 0 < n
    · simp [h, Nat.pos_iff_ne_zero.mp h]
    · simp [Nat.eq_zero_of_not_pos h]
  | atLeast k => rw [asks, holds, List.countP_eq_length_filter]

/-- What is known by name when a rule is judged. -/
structure Reading where
  /-- The strings of the rule and their numbers of occurrences. -/
  occurrences : List (String × Nat)
  /-- The size of the data. -/
  filesize : Nat
  /-- The truth values of the rules before it. -/
  truths : List (String × Bool)

namespace Reading

/-- The value of an operand; none for what is no integer or has no meaning. -/
def number? (r : Reading) : Expr → Option Int64
  | .int value => some (Int64.ofInt value)
  | .filesize => some (saturated r.filesize)
  | .count name _ => (r.occurrences.lookup name).map saturated
  | _ => none

/-- The truth value of a condition; none for what is no truth value or has no meaning. -/
def truth? (r : Reading) : Expr → Option Bool
  | .bool value => some value
  | .found name _ => (r.occurrences.lookup name).map fun n => 0 < n
  | .rule name _ => r.truths.lookup name
  | .not operand => do
    let value ← r.truth? operand
    some !value
  | .and left right => do
    let value ← r.truth? left
    let value' ← r.truth? right
    some (value && value')
  | .or left right => do
    let value ← r.truth? left
    let value' ← r.truth? right
    some (value || value')
  | .compare op left right _ => do
    let a ← r.number? left
    let b ← r.number? right
    some (op.relates a b)
  | .ofSet quantifier set _ =>
    some (quantifier.asks ((r.occurrences.filter fun s => set.selects s.1).map Prod.snd))
  | _ => none

/-- Names mean to the reading what their indices mean to compiled conditions. -/
structure Matches (r : Reading) (names : Names) (facts : Facts) : Prop where
  /-- The strings occur as often as their patterns. -/
  occurrences_eq : r.occurrences = names.strings.map fun s => (s.1, facts.count s.2)
  /-- Both know the size of the data. -/
  filesize_eq : facts.filesize = min (r.filesize : Int) integerCap
  /-- A rule with an index has the truth value that is found there. -/
  lookup_truths : ∀ name i, names.ruleIndex? name = some i →
    r.truths.lookup name = some (facts.results.getD i false)

private theorem lookup_map_snd {α β : Type} (f : α → β) (l : List (String × α)) (name : String) :
    (l.map fun s => (s.1, f s.2)).lookup name = (l.lookup name).map f := by
  induction l with
  | nil => rfl
  | cons s l ih =>
    rw [List.map_cons, List.lookup_cons, List.lookup_cons, ih]
    cases name == s.1 <;> rfl

variable {r : Reading} {names : Names} {facts : Facts}

/-- A string with an index occurs as often as its pattern. -/
private theorem Matches.lookup_occurrences (h : r.Matches names facts) {name : String} {i : Nat}
    (hi : names.strings.lookup name = some i) :
    r.occurrences.lookup name = some (facts.count i) := by
  rw [h.occurrences_eq, lookup_map_snd, hi, Option.map_some]

/-- An operand has the value of the one that it resolves to. -/
private theorem number?_eq_value (h : r.Matches names facts) {e : Expr} {o : Operand}
    (he : names.operand e = .ok o) (hr : e.InRange) :
    ∃ a, r.number? e = some a ∧ a.toInt = facts.value o := by
  cases e with
  | int value =>
    cases he
    have hmax : (Token.integerMax : Int) = 2 ^ 63 - 1 := rfl
    obtain ⟨hleast, hgreatest⟩ := hr
    exact ⟨Int64.ofInt value, rfl, Int64.toInt_ofInt_of_le (by omega) (by omega)⟩
  | filesize =>
    cases he
    exact ⟨saturated r.filesize, rfl, by rw [toInt_saturated, Facts.value, h.filesize_eq]⟩
  | count name span =>
    obtain ⟨i, hi, he⟩ := Outcome.bind_eq_ok.mp he
    cases he
    refine ⟨saturated (facts.count i), ?_, toInt_saturated _⟩
    rw [number?, h.lookup_occurrences (Names.stringIndex_eq_ok.mp hi), Option.map_some]
  | _ => cases he

/-- **A condition is read as it is compiled.** One case per form of a condition. -/
theorem truth?_eq_evaluate (h : r.Matches names facts)
    (hd : (names.strings.map Prod.snd).Nodup) {e : Expr} {c : Condition}
    (he : names.resolve e = .ok c) (hr : e.InRange) :
    r.truth? e = some (facts.evaluate c) := by
  induction e generalizing c with
  | bool value =>
    cases he
    rfl
  | found name span =>
    obtain ⟨i, hi, he⟩ := Outcome.bind_eq_ok.mp he
    cases he
    rw [truth?, h.lookup_occurrences (Names.stringIndex_eq_ok.mp hi)]
    rfl
  | rule name span =>
    rw [Names.resolve] at he
    split at he
    · rename_i i hi
      cases he
      exact h.lookup_truths name i hi
    · cases he
  | not operand ih =>
    obtain ⟨c', hc', he⟩ := Outcome.bind_eq_ok.mp he
    cases he
    rw [truth?, ih hc' hr]
    rfl
  | and left right ihl ihr | or left right ihl ihr =>
    obtain ⟨l, hl, he⟩ := Outcome.bind_eq_ok.mp he
    obtain ⟨l', hl', he⟩ := Outcome.bind_eq_ok.mp he
    cases he
    rw [truth?, ihl hl hr.1, ihr hl' hr.2]
    rfl
  | compare op left right span =>
    obtain ⟨l, hl, he⟩ := Outcome.bind_eq_ok.mp he
    obtain ⟨l', hl', he⟩ := Outcome.bind_eq_ok.mp he
    cases he
    obtain ⟨a, ha, hla⟩ := number?_eq_value h hl hr.1
    obtain ⟨b, hb, hlb⟩ := number?_eq_value h hl' hr.2
    rw [truth?, ha, hb, Facts.evaluate, ← hla, ← hlb, ← Comparison.relates_eq_holds]
    rfl
  | ofSet quantifier set span =>
    cases he
    have hselected : (r.occurrences.filter fun s => set.selects s.1).map Prod.snd =
        (names.selected set).map facts.count := by
      rw [h.occurrences_eq, List.filter_map, List.map_map, Names.selected, List.map_map]
      rfl
    -- the indices may stand in another order, which no quantifier asks about
    have hperm := Names.setIndices_perm hd set
    rw [truth?, hselected, Quantifier.asks_eq_holds, Facts.evaluate, List.countP_map,
      List.length_map, hperm.countP_eq, hperm.length_eq]
    rfl
  | int _ | filesize | count _ _ => cases he

end Reading

/-! ### Rules in the order of declaration -/

/-- The number of occurrences of a declared string, by its name. -/
def occurrence? (limit : Nat) (data : ByteArray) (string : StringDecl) : Option (String × Nat) :=
  (Pattern.compile limit string).toOption.map fun p => (string.name, p.count data)

/-- The truth value of a rule after rules with the given truth values. -/
def judgeRule? (limit : Nat) (data : ByteArray) (truths : List (String × Bool))
    (decl : RuleDecl) : Option Bool := do
  let condition ← decl.condition
  let occurrences ← decl.strings.mapM (occurrence? limit data)
  Reading.truth? { occurrences, filesize := data.size, truths } condition

/-- The rules with their truth values, each judged after those before it. -/
def judge? (limit : Nat) (data : ByteArray) (truths : List (String × Bool)) :
    List RuleDecl → Option (List (RuleDecl × Bool))
  | [] => some []
  | decl :: rest => do
    let truth ← judgeRule? limit data truths decl
    let judged ← judge? limit data (truths ++ [(decl.name, truth)]) rest
    some ((decl, truth) :: judged)

/-- The rules to report of judged ones: the true ones but for private ones, and none if a global
one is false. -/
def reportOf (judged : List (RuleDecl × Bool)) : List RuleDecl :=
  if judged.any fun (decl, truth) => decl.isGlobal && !truth then []
  else judged.filterMap fun (decl, truth) =>
    if truth && !decl.isPrivate then some decl else none

/-- The rules to report on some data. -/
def report? (limit : Nat) (data : ByteArray) (rules : List RuleDecl) : Option (List RuleDecl) :=
  (judge? limit data [] rules).map reportOf

/-- The truth values of judged rules by their names. -/
def truthsOf (judged : List (RuleDecl × Bool)) : List (String × Bool) :=
  judged.map fun j => (j.1.name, j.2)

private theorem judge?_concat {limit : Nat} {data : ByteArray} {truths : List (String × Bool)}
    {decls : List RuleDecl} {decl : RuleDecl} {judged : List (RuleDecl × Bool)} {truth : Bool}
    (h : judge? limit data truths decls = some judged)
    (h' : judgeRule? limit data (truths ++ truthsOf judged) decl = some truth) :
    judge? limit data truths (decls ++ [decl]) = some (judged ++ [(decl, truth)]) := by
  induction decls generalizing truths judged with
  | nil =>
    cases h
    rw [truthsOf, List.map_nil, List.append_nil] at h'
    rw [List.nil_append, judge?, h']
    rfl
  | cons d decls ih =>
    obtain ⟨t, ht, h⟩ := Option.bind_eq_some_iff.mp h
    obtain ⟨judged', hj, h⟩ := Option.bind_eq_some_iff.mp h
    cases h
    have hrest := ih hj (by rw [List.append_assoc]; exact h')
    rw [List.cons_append, judge?, ht, Option.bind_eq_bind, Option.bind_some, hrest]
    rfl

/-! ### Compiled rules in the order of declaration -/

namespace RuleSet

variable {limit : Nat} {s s' : RuleSet} {decl : RuleDecl} {decls : List RuleDecl}

/-- A condition within the table does not see patterns that come after it. -/
private theorem evaluate_congr {f g : Facts} {n : Nat} {c : Condition}
    (h : c.Within (· < n) fun _ => True)
    (hcount : ∀ p, p < n → f.count p = g.count p) (hsize : f.filesize = g.filesize)
    (hresults : f.results = g.results) : f.evaluate c = g.evaluate c := by
  have hvalue {o : Operand} (ho : o.Within (· < n)) : f.value o = g.value o := by
    cases o with
    | int _ => rfl
    | filesize => exact hsize
    | count p => rw [Facts.value, Facts.value, hcount p ho]
  induction c with
  | bool _ => rfl
  | found p => rw [Facts.evaluate, Facts.evaluate, hcount p h]
  | rule i => rw [Facts.evaluate, Facts.evaluate, hresults]
  | not operand ih => rw [Facts.evaluate, Facts.evaluate, ih h]
  | and left right ihl ihr | or left right ihl ihr =>
    rw [Facts.evaluate, Facts.evaluate, ihl h.1, ihr h.2]
  | compare op left right => rw [Facts.evaluate, Facts.evaluate, hvalue h.1, hvalue h.2]
  | ofSet quantifier patterns =>
    rw [Facts.evaluate, Facts.evaluate, List.countP_congr fun p hp => by rw [hcount p (h p hp)]]

theorem size_results (s : RuleSet) (data : ByteArray) :
    (s.results data).size = s.rules.size := by
  have hfold (rules : List CompiledRule) (results : Array Bool) :
      (rules.foldl (fun results rule =>
        results.push ((s.factsAfter data results).evaluate rule.condition)) results).size =
      results.size + rules.length := by
    induction rules generalizing results with
    | nil => rfl
    | cons rule rules ih =>
      rw [List.foldl_cons, ih, Array.size_push, List.length_cons]
      omega
  rw [results_eq_foldl, hfold, Array.size_empty, Nat.zero_add, Array.length_toList]

/-- Occurrences are counted with the pattern of the table, if there is one. -/
private theorem count_eq (s : RuleSet) (data : ByteArray) (results : Array Bool) (p : Nat) :
    (s.factsAfter data results).count p =
      (s.patterns.toList[p]?.map fun pattern => pattern.count data).getD 0 := by
  rw [Facts.count, factsAfter, counts, Array.getD_eq_getD_getElem?, Array.getElem?_map,
    Array.getElem?_toList]

/-- A table that is extended counts as before where it was. -/
private theorem count_factsAfter {block : List Pattern} {rules : Array CompiledRule}
    {data : ByteArray}
    {results : Array Bool} {p : Nat} (hp : p < s.patterns.size) :
    (RuleSet.factsAfter ⟨rules, s.patterns ++ block⟩ data results).count p =
      (s.factsAfter data results).count p := by
  rw [count_eq, count_eq, Array.toList_appendList, List.getElem?_append_left hp]

/-- **A push leaves earlier rules alone.** It adds the truth value of the new rule, which is
evaluated with those of the earlier ones. -/
theorem results_push (decl : RuleDecl) (block : List Pattern) (condition : Condition)
    (hs : s.IsClosed) (data : ByteArray) :
    let s' : RuleSet := ⟨s.rules.push (ruleOf decl condition), s.patterns ++ block⟩
    s'.results data =
      (s.results data).push ((s'.factsAfter data (s.results data)).evaluate condition) := by
  intro s'
  -- the conditions of earlier rules do not see the new block
  have hold (results : Array Bool) (rules : List CompiledRule)
      (hrules : ∀ rule ∈ rules, rule ∈ s.rules) :
      rules.foldl (fun results rule =>
        results.push ((s'.factsAfter data results).evaluate rule.condition)) results =
      rules.foldl (fun results rule =>
        results.push ((s.factsAfter data results).evaluate rule.condition)) results := by
    induction rules generalizing results with
    | nil => rfl
    | cons rule rules ih =>
      obtain ⟨hrule, hrest⟩ := List.forall_mem_cons.mp hrules
      have heq := evaluate_congr (f := s'.factsAfter data results)
        (g := s.factsAfter data results) (hs rule hrule) (fun p hp => count_factsAfter hp) rfl rfl
      rw [List.foldl_cons, List.foldl_cons, heq, ih _ hrest]
  rw [results_eq_foldl, results_eq_foldl, Array.toList_push, List.foldl_append,
    hold #[] s.rules.toList fun rule h => Array.mem_def.mpr h]
  rfl

/-- A rule and its truth value, as declared and as compiled. -/
def Agrees (judged : RuleDecl × Bool) (result : CompiledRule × Bool) : Prop :=
  judged.2 = result.2 ∧ ∃ condition, result.1 = ruleOf judged.1 condition

/-- The compiled rules with their truth values. -/
def judged (s : RuleSet) (data : ByteArray) : List (CompiledRule × Bool) :=
  s.rules.toList.zip (s.results data).toList

private theorem length_judged (s : RuleSet) (data : ByteArray) :
    (s.judged data).length = s.rules.size := by
  rw [judged, List.length_zip, Array.length_toList, Array.length_toList, size_results,
    Nat.min_self]

theorem map_fst_judged (s : RuleSet) (data : ByteArray) :
    (s.judged data).map Prod.fst = s.rules.toList :=
  List.map_fst_zip (by rw [Array.length_toList, Array.length_toList, size_results])

/-- Rules that are appended are judged after the earlier ones. -/
theorem judged_append {added : List CompiledRule} {truths : List Bool} {data : ByteArray}
    (hrules : s'.rules.toList = s.rules.toList ++ added)
    (hresults : (s'.results data).toList = (s.results data).toList ++ truths) :
    s'.judged data = s.judged data ++ added.zip truths := by
  rw [judged, judged, hrules, hresults]
  exact List.zip_append (by rw [Array.length_toList, Array.length_toList, size_results])

/-- The strings of a rule occur as often as the patterns of its block. -/
private theorem mapM_occurrence? {strings : List StringDecl} {block : List Pattern}
    {data : ByteArray}
    (h : List.Forall₂ (fun string p => Pattern.compile limit string = .ok p) strings block) :
    strings.mapM (occurrence? limit data) =
      some (List.zipWith (fun string p => (string.name, p.count data)) strings block) := by
  induction h with
  | nil => rfl
  | @cons string p strings block hp _ ih =>
    have hone : occurrence? limit data string = some (string.name, p.count data) := by
      rw [occurrence?, hp]
      rfl
    rw [List.mapM_cons, hone, ih]
    rfl

/-- What the names of a pushed rule mean once its block is in the table. -/
private theorem namesFor_counts {block : List Pattern} {rules : Array CompiledRule}
    {data : ByteArray}
    {results : Array Bool} (h : IsBlock limit decl block) :
    (s.namesFor decl).strings.map (fun string => (string.1,
        (RuleSet.factsAfter ⟨rules, s.patterns ++ block⟩ data results).count string.2)) =
      List.zipWith (fun string p => (string.name, p.count data)) decl.strings block := by
  have hlength := h.length_eq
  refine List.ext_getElem (by simp [namesFor, hlength]) fun i h₁ h₂ => ?_
  have hi : i < block.length := by
    rw [List.length_zipWith] at h₂
    omega
  have hcount : (RuleSet.factsAfter ⟨rules, s.patterns ++ block⟩ data results).count
      (s.patterns.size + i) = block[i].count data := by
    have hsize : s.patterns.toList.length = s.patterns.size := Array.length_toList
    rw [count_eq, Array.toList_appendList, List.getElem?_append_right (by omega), hsize,
      Nat.add_sub_cancel_left, List.getElem?_eq_getElem hi]
    rfl
  simp [namesFor, hcount]

theorem map_fst_truthsOf {judged : List (RuleDecl × Bool)} {data : ByteArray}
    (hj : List.Forall₂ Agrees judged (s.judged data)) :
    (truthsOf judged).map Prod.fst = s.names := by
  have hnames : judged.map (fun j => j.1.name) = (s.judged data).map fun r => r.1.name := by
    refine List.forall₂_eq_eq_eq ▸ List.forall₂_map_left_iff.mpr
      (List.forall₂_map_right_iff.mpr (hj.imp ?_))
    rintro j r ⟨-, condition, hrule⟩
    rw [hrule]
    rfl
  rw [truthsOf, List.map_map, names, ← map_fst_judged s data, List.map_map]
  exact hnames

/-- A name with an index is that of an earlier rule, whose truth value is found there. -/
private theorem lookup_truthsOf {judged : List (RuleDecl × Bool)} {data : ByteArray} {name : String}
    {i : Nat} (hj : List.Forall₂ Agrees judged (s.judged data)) (hn : s.names.Nodup)
    (hi : (s.namesFor decl).ruleIndex? name = some i) :
    (truthsOf judged).lookup name = some ((s.results data).getD i false) := by
  obtain ⟨hlt, hname⟩ := getElem_of_ruleIndex? hi
  have hresult : i < (s.results data).size := by rwa [size_results]
  have hright : i < (s.judged data).length := by rwa [length_judged]
  have hleft : i < judged.length := by rwa [hj.length_eq]
  obtain ⟨htruth, condition, hrule⟩ := hj.get hleft hright
  have hget : (s.judged data)[i] = (s.rules[i], (s.results data)[i]) := by
    simp [RuleSet.judged]
  rw [List.get_eq_getElem, List.get_eq_getElem, hget] at htruth hrule
  refine Dictionary.find?_of_mem (by rwa [map_fst_truthsOf hj]) ?_
  rw [Array.getD_eq_getD_getElem?, Array.getElem?_eq_getElem hresult, Option.getD_some]
  refine List.mem_map.mpr ⟨judged[i], List.getElem_mem hleft, Prod.ext ?_ htruth⟩
  exact (congrArg CompiledRule.name hrule).symm.trans hname

/-- **Rules are judged as they are evaluated**, one push after another. -/
theorem Built.exists_judged (h : Built limit decls s)
    (hr : ∀ rule ∈ decls, ∀ e, rule.condition = some e → e.InRange) (data : ByteArray) :
    ∃ judged, judge? limit data [] decls = some judged ∧
      List.Forall₂ Agrees judged (s.judged data) := by
  induction h with
  | empty => exact ⟨[], rfl, .nil⟩
  | @push decls s s' declared reject decl hb hd hc hroom hl hp ih =>
    obtain ⟨judged, hjudge, hagree⟩ := ih fun rule h => hr rule (List.mem_append_left _ h)
    obtain ⟨e, block, condition, he, hblock, hresolve, hs'⟩ := push_eq_ok.mp hp
    have hresults := results_push decl block condition hb.isClosed data
    have hrange := hr decl (List.mem_append_right _ (List.mem_singleton_self decl)) e he
    rw [← hs'] at hresults
    dsimp only at hresults
    -- the reading of the new rule and the facts it is evaluated with
    let facts := s'.factsAfter data (s.results data)
    let reading : Reading :=
      { occurrences := (s.namesFor decl).strings.map fun string => (string.1, facts.count string.2)
        filesize := data.size
        truths := truthsOf judged }
    have hmatches : reading.Matches (s.namesFor decl) facts :=
      ⟨rfl, rfl, fun name i hi => lookup_truthsOf hagree hb.nodup_names hi⟩
    have hoccurrences : decl.strings.mapM (occurrence? limit data) = some reading.occurrences := by
      rw [mapM_occurrence? hblock, ← namesFor_counts hblock, ← hs']
    have htruth : judgeRule? limit data ([] ++ truthsOf judged) decl =
        some (facts.evaluate condition) := by
      rw [judgeRule?, he, Option.bind_eq_bind, Option.bind_some, hoccurrences,
        Option.bind_eq_bind, Option.bind_some, List.nil_append]
      exact Reading.truth?_eq_evaluate hmatches (nodup_namesFor_snd s decl) hresolve hrange
    refine ⟨judged ++ [(decl, facts.evaluate condition)], judge?_concat hjudge htruth, ?_⟩
    have hzip : s'.judged data =
        s.judged data ++ [(ruleOf decl condition, facts.evaluate condition)] := by
      have hrules : s'.rules.toList = s.rules.toList ++ [ruleOf decl condition] := by
        rw [hs', Array.toList_push]
      exact judged_append hrules (by rw [hresults, Array.toList_push])
    rw [hzip]
    exact List.rel_append hagree (.cons ⟨rfl, condition, rfl⟩ .nil)

/-! ### Reports -/

/-- Is a global rule false? -/
def isSuppressed (judged : List (CompiledRule × Bool)) : Bool :=
  judged.any fun (rule, truth) => rule.isGlobal && !truth

/-- What is reported of judged rules unless a global one is false. -/
def reported (judged : List (CompiledRule × Bool)) : List RuleMatch :=
  judged.filterMap fun (rule, truth) =>
    if truth && !rule.isPrivate then some (report rule) else none

theorem scan_eq (s : RuleSet) (data : ByteArray) :
    s.scan data = if isSuppressed (s.judged data) then [] else reported (s.judged data) := rfl

theorem isSuppressed_eq_true {judged : List (CompiledRule × Bool)} :
    isSuppressed judged = true ↔ ∃ r ∈ judged, r.1.isGlobal = true ∧ r.2 = false := by
  simp [isSuppressed]

/-- A declared rule as it is reported. -/
def shown (decl : RuleDecl) : RuleMatch where
  rule := decl.name
  tags := NameSet.ofList decl.tags
  metaData := Dictionary.ofPairs (decl.metaEntries.map fun e => (e.key, e.value.render))

/-- The report of a rule shows what is declared: its name, its tags as a set and its meta entries,
of which the last one of a key counts. -/
structure Describes (decl : RuleDecl) (m : RuleMatch) : Prop where
  name_eq : m.rule = decl.name
  mem_tags : ∀ tag, tag ∈ m.tags ↔ tag ∈ decl.tags
  /-- The tags are in order and none is repeated. -/
  sorted_tags : m.tags.Pairwise (· < ·)
  find?_meta : ∀ key, m.metaData.find? key =
    (decl.metaEntries.reverse.find? fun e => e.key == key).map fun e => e.value.render
  /-- The keys are in order and none is repeated. -/
  sorted_keys : (m.metaData.map Prod.fst).Pairwise (· < ·)

private theorem describes_shown (decl : RuleDecl) : Describes decl (shown decl) where
  name_eq := rfl
  mem_tags _ := NameSet.mem_ofList
  sorted_tags := NameSet.sorted_ofList
  find?_meta key := by
    rw [shown, Dictionary.find?_ofPairs, ← List.map_reverse]
    generalize decl.metaEntries.reverse = entries
    induction entries with
    | nil => rfl
    | cons e entries ih =>
      rw [List.map_cons, List.lookup_cons, List.find?_cons, ih, BEq.comm]
      cases e.key == key <;> rfl
  sorted_keys := Dictionary.sorted_ofPairs

private theorem any_global_eq {judged : List (RuleDecl × Bool)}
    {results : List (CompiledRule × Bool)}
    (h : List.Forall₂ Agrees judged results) :
    (judged.any fun (decl, truth) => decl.isGlobal && !truth) =
      results.any fun (rule, result) => rule.isGlobal && !result := by
  induction h with
  | nil => rfl
  | @cons j r judged results hjr _ ih =>
    obtain ⟨decl, truth⟩ := j
    obtain ⟨rule, result⟩ := r
    obtain ⟨rfl : truth = result, condition, rfl : rule = _⟩ := hjr
    rw [List.any_cons, List.any_cons, ih]
    rfl

/-- What is reported of a compiled rule does not depend on its condition. -/
private theorem reported_eq_map_shown {judged : List (RuleDecl × Bool)}
    {results : List (CompiledRule × Bool)}
    (h : List.Forall₂ Agrees judged results) :
    reported results =
      (judged.filterMap fun (decl, truth) =>
        if truth && !decl.isPrivate then some decl else none).map shown := by
  induction h with
  | nil => rfl
  | @cons j r judged results hjr _ ih =>
    obtain ⟨decl, truth⟩ := j
    obtain ⟨rule, result⟩ := r
    obtain ⟨rfl : truth = result, condition, rfl : rule = _⟩ := hjr
    rw [reported, List.filterMap_cons, ← reported, ih, List.filterMap_cons]
    dsimp only [ruleOf]
    split_ifs <;> rfl

/-- A scan shows the rules to report. -/
theorem scan_eq_map_shown {judged : List (RuleDecl × Bool)} {data : ByteArray}
    (h : List.Forall₂ Agrees judged (s.judged data)) :
    s.scan data = (reportOf judged).map shown := by
  have hsuppressed : isSuppressed (s.judged data) =
      judged.any fun (decl, truth) => decl.isGlobal && !truth := (any_global_eq h).symm
  rw [scan_eq, reportOf, hsuppressed, reported_eq_map_shown h]
  split_ifs <;> rfl

/-- What is reported of judged rules is what a scan reports of the compiled ones. -/
private theorem describes_scan {judged : List (RuleDecl × Bool)} {data : ByteArray}
    (h : List.Forall₂ Agrees judged (s.judged data)) :
    List.Forall₂ Describes (reportOf judged) (s.scan data) := by
  rw [scan_eq_map_shown h, List.forall₂_map_right_iff, List.forall₂_same]
  exact fun decl _ => describes_shown decl

/-- **Compiling is reading.** What a scan with the rules of a compiled source reports describes,
one by one and in order, the rules that the direct reading of the source reports. -/
theorem reading_of_compile (preferences : CompilerPreferences) (source : String) (j : Journal)
    (set : RuleSet) (data : ByteArray)
    (h : ((RuleSet.compileLogged preferences source).run j).1 = .ok set) :
    ∃ tokens rules reported, Lexer.tokenize source = .ok tokens ∧
      Parser.parse tokens = .ok rules ∧
      report? preferences.programLimit data rules = some reported ∧
      List.Forall₂ Describes reported (set.scan data) := by
  rw [RuleSet.compileLogged_yields preferences source j, RuleSet.compile] at h
  obtain ⟨⟨set', rules⟩, houtcome, rfl⟩ : ∃ result, ({ preferences : Compiler }).outcome source =
      .ok result ∧ result.1 = set := by
    cases hc : ({ preferences : Compiler }).outcome source with
    | error e => rw [hc] at h; cases h
    | ok result => rw [hc] at h; exact ⟨result, rfl, Except.ok.inj h⟩
  obtain ⟨tokens, htokens, hparse, -, -⟩ := Compiler.outcome_eq_ok.mp houtcome
  have hstart : Built ({ preferences : Compiler }).preferences.programLimit []
      ({ preferences : Compiler }).set := .empty
  have hbuilt : Built preferences.programLimit rules set' :=
    Compiler.built_outcome hstart houtcome
  -- integers of the source are in range, since tokens are
  have hrange : ∀ t ∈ tokens.tokens, t.value.InRange := fun t ht =>
    (Lexer.lexes_of_tokenize htokens).2.2.inRange t.value (List.mem_map_of_mem ht)
  obtain ⟨judged, hjudge, hagree⟩ :=
    hbuilt.exists_judged ((Parser.sourceForm_of_parse hparse).inRange hrange) data
  exact ⟨tokens, rules, reportOf judged, htokens, hparse, by rw [report?, hjudge]; rfl,
    describes_scan hagree⟩

/-- A private rule that finds a string, a rule that refers to it and to a set of its own strings,
and a rule without which nothing is reported. -/
def guarded : String :=
  "private rule p \x7b strings: $x = \"ab\" condition: $x \x7d
  rule q : t \x7b meta: k = 1 k = 2 strings: $a1 = \"a\" $a2 = \"z\"
    condition: p and any of ($a*) and #a1 == 2 \x7d
  global rule g \x7b condition: filesize < 9 \x7d"

/-- All three rules are true of these data, and the reading reports those that are not private. -/
theorem reading_of_compile_guarded :
    ∃ set tokens rules reported,
      ((RuleSet.compileLogged {} guarded).run {}).1 = .ok set ∧
      Lexer.tokenize guarded = .ok tokens ∧ Parser.parse tokens = .ok rules ∧
      report? Limits.programSize "abca".toUTF8 rules = some reported ∧
      List.Forall₂ Describes reported (set.scan "abca".toUTF8) ∧
      set.scan "abca".toUTF8 = [⟨"q", ["t"], [("k", "2")]⟩, ⟨"g", [], []⟩] := by
  have hcomputed : (RuleSet.empty.extend? {} guarded).map (·.scan "abca".toUTF8) =
      some [⟨"q", ["t"], [("k", "2")]⟩, ⟨"g", [], []⟩] := by decide +kernel
  obtain ⟨set, hset, hscan⟩ := Option.map_eq_some_iff.mp hcomputed
  have hcompiled : ((RuleSet.compileLogged {} guarded).run {}).1 = .ok set := by
    rw [RuleSet.compileLogged_yields {} guarded {}, RuleSet.compile_eq_ok_iff]
    exact hset
  obtain ⟨tokens, rules, reported, htokens, hparse, hreport, hdescribes⟩ :=
    reading_of_compile {} guarded {} set "abca".toUTF8 hcompiled
  exact ⟨set, tokens, rules, reported, hcompiled, htokens, hparse, hreport, hdescribes, hscan⟩

end RuleSet

end PackageScan
