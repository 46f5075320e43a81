import PackageScan.Proofs.RuleSet.Reading

/-!
# Adding rules leaves earlier ones alone

A compiler only appends to its rule set: a push adds a rule and a block of patterns, and nothing
that is there moves. The rule sets of a compiler are closed (`RuleSet.Built.isClosed`), and in a
closed set the earlier conditions do not see what is appended:

* **Judging**: a push extends a set (`RuleSet.extends_push`), extensions follow one another
  (`RuleSet.Extends.trans`), and so the rules of a source extend it (`RuleSet.extends_pushAll`). An
  extended set judges the earlier rules as before (`RuleSet.Extends.truth?_eq`).
* **Scanning**: a scan with an extended set reports what it did before and then the new rules that
  are true (`RuleSet.Extends.scan_eq`), or nothing if a global rule is false, an earlier or a new
  one.
-/

namespace PackageScan

namespace RuleSet

variable {limit : Nat} {s s' s'' : RuleSet} {decl : RuleDecl} {rules : List RuleDecl}
variable {added added' : List CompiledRule} {data : ByteArray} {name : String}

/-! ### Extensions -/

/-- The rule is the declared one, under some condition. -/
def Compiles (decl : RuleDecl) (rule : CompiledRule) : Prop :=
  ∃ condition, rule = ruleOf decl condition

/-- The set `s'` has the rules of `s` and then the rules `added`, and judges the former as `s`
does. -/
structure Extends (s : RuleSet) (added : List CompiledRule) (s' : RuleSet) : Prop where
  rules_eq : s'.rules.toList = s.rules.toList ++ added
  results_eq : ∀ data, ∃ truths, (s'.results data).toList = (s.results data).toList ++ truths

private theorem extends_refl (s : RuleSet) : s.Extends [] s :=
  ⟨(List.append_nil _).symm, fun _ => ⟨[], (List.append_nil _).symm⟩⟩

/-- Extensions follow one another. -/
theorem Extends.trans (h : s.Extends added s') (h' : s'.Extends added' s'') :
    s.Extends (added ++ added') s'' := by
  refine ⟨by rw [h'.rules_eq, h.rules_eq, List.append_assoc], fun data => ?_⟩
  obtain ⟨truths, htruths⟩ := h.results_eq data
  obtain ⟨truths', htruths'⟩ := h'.results_eq data
  exact ⟨truths ++ truths', by rw [htruths', htruths, List.append_assoc]⟩

/-- **A step.** Pushing a rule on a closed set extends it by that rule. -/
theorem extends_push (hs : s.IsClosed) (h : s.push limit decl = .ok s') :
    ∃ rule, Compiles decl rule ∧ s.Extends [rule] s' := by
  obtain ⟨e, block, condition, -, -, -, rfl⟩ := push_eq_ok.mp h
  refine ⟨ruleOf decl condition, ⟨condition, rfl⟩, Array.toList_push, fun data => ?_⟩
  have hresults := results_push decl block condition hs data
  dsimp only at hresults
  rw [hresults, Array.toList_push]
  exact ⟨_, rfl⟩

/-- **A run.** Pushing rules one after another extends a closed set by those rules. -/
theorem extends_pushAll (hs : s.IsClosed) (h : s.pushAll limit rules = .ok s') :
    ∃ added, List.Forall₂ Compiles rules added ∧ s.Extends added s' := by
  induction rules generalizing s with
  | nil => exact ⟨[], .nil, Except.ok.inj h ▸ extends_refl s⟩
  | cons rule rest ih =>
    obtain ⟨s₁, hpush, hrest⟩ := Outcome.bind_eq_ok.mp h
    obtain ⟨compiled, hcompiled, hone⟩ := extends_push hs hpush
    obtain ⟨added, hadded, hothers⟩ := ih (hs.push hpush) hrest
    exact ⟨compiled :: added, .cons hcompiled hadded, hone.trans hothers⟩

/-! ### What is judged -/

/-- The truth value of the rule with the name, if there is one. -/
def truth? (s : RuleSet) (data : ByteArray) (name : String) : Option Bool :=
  ((s.judged data).map fun r => (r.1.name, r.2)).lookup name

/-- Just the rules of the set have truth values. -/
private theorem isSome_truth? : (s.truth? data name).isSome = true ↔ name ∈ s.names := by
  have hkeys : ((s.judged data).map fun r => (r.1.name, r.2)).map Prod.fst = s.names := by
    rw [names, ← map_fst_judged s data, List.map_map, List.map_map]
    rfl
  rw [truth?, List.lookup_isSome_iff, ← hkeys, List.mem_map]
  exact exists_congr fun r => and_congr_right fun _ => by rw [beq_iff_eq, eq_comm]

/-- **Earlier rules keep their truth values.** -/
theorem Extends.truth?_eq (h : s.Extends added s') (hname : name ∈ s.names) :
    s'.truth? data name = s.truth? data name := by
  obtain ⟨truths, htruths⟩ := h.results_eq data
  obtain ⟨truth, htruth⟩ := Option.isSome_iff_exists.mp (isSome_truth?.mpr hname)
  have hfirst : ((s.judged data).map fun r => (r.1.name, r.2)).lookup name = some truth := htruth
  rw [htruth, truth?, judged_append h.rules_eq htruths, List.map_append, List.lookup_append, hfirst]
  rfl

/-! ### What is reported -/

/-- **A scan goes on where it ended.** Unless a global rule is false, a scan with the extended set
reports what it did before and then the new rules. -/
theorem Extends.scan_eq (h : s.Extends added s') {truths : List Bool}
    (htruths : (s'.results data).toList = (s.results data).toList ++ truths) :
    s'.scan data =
      if isSuppressed (s'.judged data) then [] else s.scan data ++ reported (added.zip truths) := by
  have hjudged := judged_append h.rules_eq htruths
  rw [RuleSet.scan_eq s', RuleSet.scan_eq s]
  by_cases hsuppressed : isSuppressed (s'.judged data) = true
  · rw [if_pos hsuppressed, if_pos hsuppressed]
  · -- what is not suppressed by any rule is not suppressed by the earlier ones
    have hearlier : ¬ isSuppressed (s.judged data) = true := by
      rw [hjudged, isSuppressed, List.any_append, Bool.or_eq_true, not_or] at hsuppressed
      exact hsuppressed.1
    rw [if_neg hsuppressed, if_neg hsuppressed, if_neg hearlier, hjudged]
    exact List.filterMap_append

end RuleSet

/-! ### Accepted sources -/

namespace Compiler

open RuleSet

variable {c c' : Compiler} {source : String}

/-- An accepted source leaves the compiler with what its outcome says. -/
private theorem outcome_of_addSource {j : Journal}
    (h : ((c.addSource source).run j).1 = (.ok (), c')) :
    c.outcome source = .ok (c'.set, c.rulesOf source) := by
  rw [addSource_yields c source j, add] at h
  rw [rulesOf]
  cases houtcome : c.outcome source with
  | error e =>
    rw [houtcome] at h
    cases h
  | ok result =>
    obtain ⟨set, rules⟩ := result
    rw [houtcome] at h
    cases h
    rfl

/-- **Adding rules never disturbs earlier ones.** Let a compiler have taken any sources and then
accept one more. Its rule set has the rules of that source after the earlier ones, under names
that are new. On any data the earlier rules keep their truth values, and the new scan either
reports what the old one did followed by those new rules that are true and not private, or, when
a global rule is false, nothing. -/
theorem scan_addSource (preferences : CompilerPreferences) (sources : List String)
    (source : String) (j j' : Journal) (c c' : Compiler)
    (hc : ((({ preferences } : Compiler).addEach sources).run j).1 = c)
    (h : ((c.addSource source).run j').1 = (.ok (), c')) :
    ∃ added, List.Forall₂ Compiles (c.rulesOf source) added ∧
      c'.set.rules.toList = c.set.rules.toList ++ added ∧
      (∀ rule ∈ added, rule.name ∉ c.set.names) ∧
      ∀ data, (∀ name ∈ c.set.names, c'.set.truth? data name = c.set.truth? data name) ∧
        ∃ truths, truths.length = added.length ∧
          (c'.set.results data).toList = (c.set.results data).toList ++ truths ∧
          ((c'.set.scan data = c.set.scan data ++ reported (added.zip truths) ∧
              ∀ r ∈ c'.set.judged data, r.1.isGlobal = true → r.2 = true) ∨
            (c'.set.scan data = [] ∧
              ∃ r ∈ c'.set.judged data, r.1.isGlobal = true ∧ r.2 = false)) := by
  rw [addEach_yields { preferences } sources j] at hc
  have houtcome := outcome_of_addSource h
  have hpreferences : c.preferences = preferences := hc ▸ preferences_addAll _ sources
  have hbuilt : Built c.preferences.programLimit
      (({ preferences } : Compiler).declarations sources) c.set := by
    rw [hpreferences, ← hc]
    exact built_addAll (c := { preferences }) sources .empty
  have hbuilt' := built_outcome hbuilt houtcome
  obtain ⟨-, -, hpushed⟩ := outcome_eq_ok_iff_rulesIn?.mp houtcome
  obtain ⟨added, hadded, hextends⟩ := extends_pushAll hbuilt.isClosed hpushed
  -- no name occurs twice in the new set, so none of an earlier rule among the new ones
  have hnames : c'.set.names = c.set.names ++ added.map CompiledRule.name := by
    rw [RuleSet.names, hextends.rules_eq, List.map_append, RuleSet.names]
  have hnodup := hbuilt'.nodup_names
  rw [hnames, List.nodup_append] at hnodup
  refine ⟨added, hadded, hextends.rules_eq, fun rule hrule hold => ?_, fun data =>
    ⟨fun name hname => hextends.truth?_eq hname, ?_⟩⟩
  · exact hnodup.2.2 _ hold _ (List.mem_map_of_mem hrule) rfl
  · obtain ⟨truths, htruths⟩ := hextends.results_eq data
    have hlength : truths.length = added.length := by
      have hsize := congrArg List.length htruths
      have hrules := congrArg List.length hextends.rules_eq
      simp only [List.length_append, Array.length_toList, size_results] at hsize hrules
      omega
    have hscan := hextends.scan_eq htruths
    refine ⟨truths, hlength, htruths, ?_⟩
    by_cases hsuppressed : isSuppressed (c'.set.judged data) = true
    · rw [if_pos hsuppressed] at hscan
      exact .inr ⟨hscan, isSuppressed_eq_true.mp hsuppressed⟩
    · rw [if_neg hsuppressed] at hscan
      refine .inl ⟨hscan, fun r hr hglobal => ?_⟩
      by_contra hfalse
      exact hsuppressed (isSuppressed_eq_true.mpr
        ⟨r, hr, hglobal, Bool.eq_false_iff.mpr hfalse⟩)

/-- A source with one rule, which is true when that of the smallest source is. -/
def dependent : String := "rule b \x7bcondition:a\x7d"

/-- The rule of that source. -/
def sameAsFirst : RuleDecl :=
  { alwaysTrue with
    name := "b"
    span := ⟨.start, ⟨20, 1, 21⟩⟩
    condition := some (.rule "a" ⟨⟨18, 1, 19⟩, ⟨19, 1, 20⟩⟩) }

/-- The rule set of the smallest source and that one. -/
def dependentSet : RuleSet :=
  ⟨#[ruleOf alwaysTrue (.bool true), ruleOf sameAsFirst (.rule 0)], #[]⟩

private theorem set_addEach_smallest (j : Journal) :
    ((({} : Compiler).addEach [smallest]).run j).1.set = smallestSet := by
  rw [addEach_yields {} [smallest] j]
  change (({} : Compiler).add smallest).2.set = smallestSet
  rw [add, outcome_smallest]
  rfl

/-- Where the smallest source has been accepted, the source that refers to its rule is too. -/
private theorem outcome_dependent (h : c.set = smallestSet) :
    c.outcome dependent = .ok (dependentSet, [sameAsFirst]) := by
  have hindex : (smallestSet.namesFor sameAsFirst).ruleIndex? "a" = some 0 := by decide +kernel
  have hresolve : (c.set.namesFor sameAsFirst).resolve
      (.rule "a" ⟨⟨18, 1, 19⟩, ⟨19, 1, 20⟩⟩) = .ok (.rule 0) := by
    rw [h, Names.resolve, hindex]
  have houtcome := outcome_plain sameAsFirst (by decide +kernel : rulesIn? dependent = _) rfl rfl
    (by rw [h]; decide) (by rw [h]; decide) (by rw [h]; decide) trivial
    (List.forall_mem_cons.mpr ⟨by rw [h]; exact List.mem_cons_self, List.forall_mem_nil _⟩)
    hresolve
  rw [houtcome, h]
  rfl

/-- After the smallest source comes one that refers to its rule. -/
theorem scan_addSource_dependent :
    ∃ c c', ((({} : Compiler).addEach [smallest]).run {}).1 = c ∧
      ((c.addSource dependent).run {}).1 = (.ok (), c') ∧
      c.set = smallestSet ∧ c'.set = dependentSet ∧
      ∀ data, c'.set.truth? data "a" = c.set.truth? data "a" ∧
        c.set.scan data <+: c'.set.scan data := by
  obtain ⟨c, hc⟩ : ∃ c, ((({} : Compiler).addEach [smallest]).run {}).1 = c := ⟨_, rfl⟩
  have hset : c.set = smallestSet := hc ▸ set_addEach_smallest {}
  have h : ((c.addSource dependent).run {}).1 =
      (.ok (), c.settle dependent (.ok (dependentSet, [sameAsFirst]))) := by
    rw [addSource_yields c dependent {}, add, outcome_dependent hset]
    rfl
  obtain ⟨added, -, -, -, hdata⟩ := scan_addSource {} [smallest] dependent {} {} c _ hc h
  refine ⟨c, _, hc, h, hset, rfl, fun data => ?_⟩
  obtain ⟨htruth, truths, -, -, hscan⟩ := hdata data
  refine ⟨htruth "a" (by rw [hset]; exact List.mem_cons_self), ?_⟩
  rcases hscan with ⟨hscan, -⟩ | ⟨-, r, hr, hglobal, -⟩
  · rw [hscan]
    exact List.prefix_append _ _
  · -- neither rule is global
    have hrule : r.1 ∈ dependentSet.rules.toList := (List.of_mem_zip hr).1
    rcases List.mem_cons.mp hrule with hrule | hrule
    · rw [hrule] at hglobal
      cases hglobal
    · rw [List.mem_singleton.mp hrule] at hglobal
      cases hglobal

end Compiler

end PackageScan
