import Mathlib.Data.List.Perm.Basic
import PackageScan.Proofs.RuleSet.Extending

/-!
# The order of sources

Sources may be given to a compiler in any order in which it accepts all of them: the same rules are
true and the same ones are reported. Another order moves every pattern and every rule to another
index, so rules are compared as they are read, by their names (`RuleSet.judge?`), where no index
occurs:

* **One rule**: two readings that agree on the rules which both know give a condition the same
  truth value, if both give it one (`Reading.truth?_unique`).
* **All rules**: a rule refers to rules before it, in either order. By induction along the first
  order, the rules that it refers to have the same truth values in both, and so has the rule itself
  (`RuleSet.truth_unique`). Judged rules are thus a permutation of each other
  (`RuleSet.judged_perm`).
* **Sources**: what a source is read as does not depend on the compiler, so the rules that are
  judged are those of the sources, in their order (`Compiler.AcceptsAll.declarations_eq`).
-/

namespace PackageScan

/-! ### Readings that agree -/

namespace Reading

variable {r r' : Reading} {e : Expr} {value value' : Bool}

private theorem number?_congr (hoccurrences : r.occurrences = r'.occurrences)
    (hsize : r.filesize = r'.filesize) (e : Expr) : r.number? e = r'.number? e := by
  cases e <;> simp only [number?, hoccurrences, hsize]

/-- **One rule.** A condition has one truth value, however many rules are known by name, as long as
no rule is known with two truth values. -/
theorem truth?_unique (r r' : Reading) (hoccurrences : r.occurrences = r'.occurrences)
    (hsize : r.filesize = r'.filesize)
    (htruths : ∀ name t t', r.truths.lookup name = some t → r'.truths.lookup name = some t' →
      t = t')
    (h : r.truth? e = some value) (h' : r'.truth? e = some value') : value = value' := by
  induction e generalizing value value' with
  | bool _ =>
    cases h
    cases h'
    rfl
  | found name span =>
    rw [truth?, hoccurrences] at h
    exact Option.some.inj (h.symm.trans h')
  | rule name span => exact htruths name value value' h h'
  | not operand ih =>
    obtain ⟨t, ht, h⟩ := Option.bind_eq_some_iff.mp h
    obtain ⟨t', ht', h'⟩ := Option.bind_eq_some_iff.mp h'
    cases h
    cases h'
    rw [ih ht ht']
  | and left right ihl ihr | or left right ihl ihr =>
    obtain ⟨l, hl, h⟩ := Option.bind_eq_some_iff.mp h
    obtain ⟨l', hl', h'⟩ := Option.bind_eq_some_iff.mp h'
    obtain ⟨t, ht, h⟩ := Option.bind_eq_some_iff.mp h
    obtain ⟨t', ht', h'⟩ := Option.bind_eq_some_iff.mp h'
    cases h
    cases h'
    rw [ihl hl hl', ihr ht ht']
  | compare op left right span =>
    rw [truth?, number?_congr hoccurrences hsize, number?_congr hoccurrences hsize] at h
    exact Option.some.inj (h.symm.trans h')
  | ofSet quantifier set span =>
    rw [truth?, hoccurrences] at h
    exact Option.some.inj (h.symm.trans h')
  | int _ | filesize | count _ _ => cases h

end Reading

namespace RuleSet

variable {limit : Nat} {data : ByteArray} {decl : RuleDecl} {decls decls' : List RuleDecl}
variable {truths truths' : List (String × Bool)}
  {judged judged' front back : List (RuleDecl × Bool)}

/-! ### Judging in two orders -/

theorem judgeRule?_unique {t t' : Bool}
    (htruths : ∀ name t t', truths.lookup name = some t → truths'.lookup name = some t' → t = t')
    (h : judgeRule? limit data truths decl = some t)
    (h' : judgeRule? limit data truths' decl = some t') : t = t' := by
  obtain ⟨e, he, h⟩ := Option.bind_eq_some_iff.mp h
  obtain ⟨e', he', h'⟩ := Option.bind_eq_some_iff.mp h'
  obtain ⟨occurrences, ho, h⟩ := Option.bind_eq_some_iff.mp h
  obtain ⟨occurrences', ho', h'⟩ := Option.bind_eq_some_iff.mp h'
  cases he.symm.trans he'
  cases ho.symm.trans ho'
  let reading (truths : List (String × Bool)) : Reading :=
    { occurrences, filesize := data.size, truths }
  exact (reading truths).truth?_unique (reading truths') rfl rfl htruths h h'

private theorem map_fst_judge? (h : judge? limit data truths decls = some judged) :
    judged.map Prod.fst = decls := by
  induction decls generalizing truths judged with
  | nil =>
    cases h
    rfl
  | cons decl rest ih =>
    obtain ⟨t, -, h⟩ := Option.bind_eq_some_iff.mp h
    obtain ⟨others, hothers, h⟩ := Option.bind_eq_some_iff.mp h
    cases h
    rw [List.map_cons, ih hothers]

/-- A rule is judged with the truth values of those before it. -/
private theorem judgeRule?_of_judge? {t : Bool}
    (h : judge? limit data truths decls = some (front ++ (decl, t) :: back)) :
    judgeRule? limit data (truths ++ truthsOf front) decl = some t := by
  induction front generalizing truths decls with
  | nil =>
    cases decls with
    | nil => cases h
    | cons d rest =>
      obtain ⟨t', ht', h⟩ := Option.bind_eq_some_iff.mp h
      obtain ⟨others, -, h⟩ := Option.bind_eq_some_iff.mp h
      cases h
      rw [truthsOf, List.map_nil, List.append_nil]
      exact ht'
  | cons j front ih =>
    cases decls with
    | nil => cases h
    | cons d rest =>
      obtain ⟨t', -, h⟩ := Option.bind_eq_some_iff.mp h
      obtain ⟨others, hothers, h⟩ := Option.bind_eq_some_iff.mp h
      obtain ⟨hhead, htail⟩ := List.cons.inj (Option.some.inj h)
      subst hhead htail
      have hlater := ih hothers
      rw [List.append_assoc] at hlater
      exact hlater

private theorem exists_of_lookup_truthsOf {name : String} {t : Bool}
    (h : (truthsOf judged).lookup name = some t) : ∃ d, (d, t) ∈ judged ∧ d.name = name := by
  obtain ⟨before, after, heq, -⟩ := List.lookup_eq_some_iff.mp h
  have hmem : (name, t) ∈ truthsOf judged := by
    rw [heq]
    exact List.mem_append_right _ List.mem_cons_self
  obtain ⟨⟨d, t'⟩, hj, hpair⟩ := List.mem_map.mp hmem
  obtain ⟨hname, rfl⟩ := Prod.mk.inj hpair
  exact ⟨d, hj, hname⟩

/-- **All rules.** A rule that is judged in two orders has one truth value. -/
theorem truth_unique (hnames : (decls.map RuleDecl.name).Nodup) (hperm : decls.Perm decls')
    (h : judge? limit data [] decls = some judged)
    (h' : judge? limit data [] decls' = some judged') {t t' : Bool} (ht : (decl, t) ∈ judged)
    (ht' : (decl, t') ∈ judged') : t = t' := by
  have hdecl {d : RuleDecl} {t : Bool} (hd : (d, t) ∈ judged) : d ∈ decls :=
    map_fst_judge? h ▸ List.mem_map_of_mem hd
  have hdecl' {d : RuleDecl} {t : Bool} (hd : (d, t) ∈ judged') : d ∈ decls :=
    hperm.mem_iff.mpr (map_fst_judge? h' ▸ List.mem_map_of_mem hd)
  -- the induction is on the part of the first order up to the rule
  have hall (front : List (RuleDecl × Bool)) : ∀ back, judged = front ++ back →
      ∀ d t t', (d, t) ∈ front → (d, t') ∈ judged' → t = t' := by
    induction front using List.reverseRecOn with
    | nil => exact fun _ _ _ _ _ hmem => nomatch hmem
    | append_singleton front j ih =>
      intro back hsplit d t t' hmem hmem'
      rw [List.append_assoc, List.singleton_append] at hsplit
      rcases List.mem_append.mp hmem with hmem | hmem
      · exact ih (j :: back) hsplit d t t' hmem hmem'
      · obtain rfl : (d, t) = j := List.mem_singleton.mp hmem
        obtain ⟨front', back', hsplit'⟩ := List.append_of_mem hmem'
        have hone := judgeRule?_of_judge? (hsplit ▸ h)
        have hother := judgeRule?_of_judge? (hsplit' ▸ h')
        refine judgeRule?_unique (fun name u u' hu hu' => ?_) hone hother
        -- both orders mean the same rule by the name, and it comes earlier in the first
        obtain ⟨d₁, hd₁, rfl⟩ := exists_of_lookup_truthsOf hu
        obtain ⟨d₂, hd₂, hname⟩ := exists_of_lookup_truthsOf hu'
        have hin₁ : (d₁, u) ∈ judged := hsplit ▸ List.mem_append_left _ hd₁
        have hin₂ : (d₂, u') ∈ judged' := hsplit' ▸ List.mem_append_left _ hd₂
        obtain rfl : d₂ = d₁ :=
          List.inj_on_of_nodup_map hnames (hdecl' hin₂) (hdecl hin₁) hname
        exact ih _ hsplit d₂ u u' hd₁ hin₂
  exact hall judged [] (List.append_nil _).symm decl t t' ht ht'

/-- Judged in two orders, the rules with their truth values are a permutation of each other. -/
theorem judged_perm (hnames : (decls.map RuleDecl.name).Nodup) (hperm : decls.Perm decls')
    (h : judge? limit data [] decls = some judged)
    (h' : judge? limit data [] decls' = some judged') : judged.Perm judged' := by
  have hnodup : decls.Nodup := hnames.of_map _
  have hleft : judged.Nodup := .of_map Prod.fst (map_fst_judge? h ▸ hnodup)
  have hright : judged'.Nodup :=
    .of_map Prod.fst (map_fst_judge? h' ▸ hperm.nodup_iff.mp hnodup)
  have hmem (d : RuleDecl) : d ∈ judged.map Prod.fst ↔ d ∈ judged'.map Prod.fst := by
    rw [map_fst_judge? h, map_fst_judge? h', hperm.mem_iff]
  refine (List.perm_ext_iff_of_nodup hleft hright).mpr fun ⟨d, t⟩ => ⟨fun hd => ?_, fun hd => ?_⟩
  · obtain ⟨⟨d', t'⟩, hd', rfl⟩ := List.mem_map.mp ((hmem d).mp (List.mem_map_of_mem hd))
    rwa [truth_unique hnames hperm h h' hd hd']
  · obtain ⟨⟨d', t'⟩, hd', rfl⟩ := List.mem_map.mp ((hmem d).mpr (List.mem_map_of_mem hd))
    rwa [← truth_unique hnames hperm h h' hd' hd]

private theorem reportOf_perm (h : judged.Perm judged') :
    (reportOf judged).Perm (reportOf judged') := by
  rw [reportOf, reportOf, h.any_eq]
  split_ifs
  · exact .nil
  · exact h.filterMap _

/-! ### Scans in two orders -/

variable {s s' : RuleSet}

private theorem map_judged_eq_truthsOf (h : List.Forall₂ Agrees judged (s.judged data)) :
    ((s.judged data).map fun r => (r.1.name, r.2)) = truthsOf judged := by
  generalize s.judged data = results at h
  induction h with
  | nil => rfl
  | cons hjr _ ih =>
    obtain ⟨htruth, condition, hrule⟩ := hjr
    rw [truthsOf, List.map_cons, List.map_cons, ih, hrule, htruth]
    rfl

/-- Names are looked up alike in lists that are permutations of each other. -/
private theorem lookup_eq_of_perm (hnames : (truths.map Prod.fst).Nodup) (h : truths.Perm truths')
    (name : String) : truths.lookup name = truths'.lookup name := by
  have hnames' : (truths'.map Prod.fst).Nodup := (h.map Prod.fst).nodup_iff.mp hnames
  have hiff {l : List (String × Bool)} (hl : (l.map Prod.fst).Nodup) (t : Bool) :
      l.lookup name = some t ↔ (name, t) ∈ l := by
    refine ⟨fun hlookup => ?_, Dictionary.find?_of_mem hl⟩
    obtain ⟨before, after, rfl, -⟩ := List.lookup_eq_some_iff.mp hlookup
    exact List.mem_append_right _ List.mem_cons_self
  ext t
  rw [hiff hnames, hiff hnames', h.mem_iff]

/-- **Two orders of the same rules** have the same truth values by name and reports that are
permutations of each other. -/
theorem Built.scans_perm (h : Built limit decls s) (h' : Built limit decls' s')
    (hperm : decls.Perm decls')
    (hr : ∀ rule ∈ decls, ∀ e, rule.condition = some e → e.InRange) (data : ByteArray) :
    (s.scan data).Perm (s'.scan data) ∧ ∀ name, s.truth? data name = s'.truth? data name := by
  obtain ⟨judged, hjudge, hagree⟩ := h.exists_judged hr data
  obtain ⟨judged', hjudge', hagree'⟩ :=
    h'.exists_judged (fun rule hrule => hr rule (hperm.mem_iff.mpr hrule)) data
  have hnames : (decls.map RuleDecl.name).Nodup := h.names_eq ▸ h.nodup_names
  have hjudged := judged_perm hnames hperm hjudge hjudge'
  refine ⟨?_, fun name => ?_⟩
  · rw [scan_eq_map_shown hagree, scan_eq_map_shown hagree']
    exact (reportOf_perm hjudged).map shown
  · have hkeys : ((truthsOf judged).map Prod.fst).Nodup := by
      rw [map_fst_truthsOf hagree]
      exact h.nodup_names
    rw [truth?, truth?, map_judged_eq_truthsOf hagree, map_judged_eq_truthsOf hagree']
    exact lookup_eq_of_perm hkeys (hjudged.map _) name

end RuleSet

/-! ### Accepted sources -/

namespace Compiler

open RuleSet

variable {c : Compiler} {source : String} {sources : List String} {decls : List RuleDecl}

/-- Each of the sources is accepted when they are added one after another. -/
def AcceptsAll (c : Compiler) : List String → Prop
  | [] => True
  | source :: rest => (c.add source).1 = .ok () ∧ (c.add source).2.AcceptsAll rest

/-- The rules of sources that are all accepted are what the sources are read as. -/
theorem AcceptsAll.declarations_eq (h : c.AcceptsAll sources) :
    c.declarations sources = sources.flatMap fun source => (rulesIn? source).getD [] := by
  induction sources generalizing c with
  | nil => rfl
  | cons source rest ih =>
    obtain ⟨haccepted, hrest⟩ := h
    rw [declarations, ih hrest, List.flatMap_cons, rulesOf]
    rw [add] at haccepted
    cases houtcome : c.outcome source with
    | error e =>
      rw [houtcome] at haccepted
      cases haccepted
    | ok result =>
      obtain ⟨set, rules⟩ := result
      rw [(outcome_eq_ok_iff_rulesIn?.mp houtcome).1]
      rfl

/-- Integers of a source are in range, since those of its tokens are. -/
private theorem inRange_of_rulesIn? (h : rulesIn? source = some decls) :
    ∀ rule ∈ decls, ∀ e, rule.condition = some e → e.InRange := by
  obtain ⟨tokens, htokens, hparse⟩ := rulesIn?_eq_some.mp h
  have htoken : ∀ t ∈ tokens.tokens, t.value.InRange := fun t ht =>
    (Lexer.lexes_of_tokenize htokens).2.2.inRange t.value (List.mem_map_of_mem ht)
  exact (Parser.sourceForm_of_parse hparse).inRange htoken

/-- **The order of sources does not change which rules match.** Let fresh compilers accept all of
some sources in two orders. On any data the scans with the two rule sets are permutations of each
other, with the same names, tags and meta entries, and every rule has the same truth value in
both sets, whether it is reported or not. -/
theorem scan_perm (preferences : CompilerPreferences) (sources sources' : List String)
    (hperm : sources.Perm sources') (h : ({ preferences } : Compiler).AcceptsAll sources)
    (h' : ({ preferences } : Compiler).AcceptsAll sources') (j j' : Journal) (set set' : RuleSet)
    (hset : ((({ preferences } : Compiler).addEach sources >>= build).run j).1 = set)
    (hset' : ((({ preferences } : Compiler).addEach sources' >>= build).run j').1 = set')
    (data : ByteArray) :
    (set.scan data).Perm (set'.scan data) ∧
      ∀ name, set.truth? data name = set'.truth? data name := by
  have hyields (sources : List String) :
      Logged.Yields (({ preferences } : Compiler).addEach sources >>= build)
        (({ preferences } : Compiler).addAll sources).set :=
    (addEach_yields _ sources).bind (build_yields _)
  have hbuilt (sources : List String) (h : ({ preferences } : Compiler).AcceptsAll sources) :
      Built preferences.programLimit
        (sources.flatMap fun source => (rulesIn? source).getD [])
        (({ preferences } : Compiler).addAll sources).set := by
    rw [← h.declarations_eq]
    exact built_addAll (c := { preferences }) sources .empty
  have hrange : ∀ rule ∈ sources.flatMap fun source => (rulesIn? source).getD [],
      ∀ e, rule.condition = some e → e.InRange := by
    intro rule hrule
    obtain ⟨source, -, hmem⟩ := List.mem_flatMap.mp hrule
    cases hread : rulesIn? source with
    | none =>
      rw [hread] at hmem
      exact nomatch hmem
    | some rules =>
      rw [hread] at hmem
      exact inRange_of_rulesIn? hread rule hmem
  rw [hyields sources j] at hset
  rw [hyields sources' j'] at hset'
  subst hset hset'
  exact (hbuilt sources h).scans_perm (hbuilt sources' h') (hperm.flatMap_right _) hrange data

/-- A rule without strings is accepted, and its name comes last. -/
private theorem add_plain (decl : RuleDecl) {e : Expr} {names : List String}
    (hnames : c.set.names = names)
    (hread : rulesIn? source = some [decl]) (hstrings : decl.strings = [])
    (hcondition : decl.condition = some e) (hroom : names.length < Limits.ruleCount)
    (hnodup : (names ++ [decl.name]).Nodup) (htyped : e.WellTyped)
    (hknown : ∀ part ∈ e.subterms, part.Known [] (· ∈ names)) (hlists : e.ListsItems) :
    (c.add source).1 = .ok () ∧ (c.add source).2.set.names = names ++ [decl.name] := by
  subst hnames
  obtain ⟨hold, -, hfresh⟩ := List.nodup_append.mp hnodup
  have hnew : decl.name ∉ c.set.names := fun h =>
    hfresh _ h _ (List.mem_singleton_self _) rfl
  have hstringNames : (c.set.namesFor decl).strings.map Prod.fst = [] := by
    rw [namesFor_fst, RuleDecl.stringNames, hstrings, List.map_nil]
  have hscoped : e.Scoped ((c.set.namesFor decl).strings.map Prod.fst)
      fun name => ((c.set.namesFor decl).ruleIndex? name).isSome = true := by
    have hrules : (fun name => ((c.set.namesFor decl).ruleIndex? name).isSome = true) =
        (· ∈ c.set.names) := funext fun name => propext isSome_ruleIndex?
    rw [hstringNames, hrules]
    exact Expr.scoped_of_known htyped hknown hlists
  obtain ⟨condition, hresolve, -⟩ :=
    Names.exists_resolve_of_scoped (nodup_namesFor_snd c.set decl) hscoped
  have houtcome := outcome_plain decl hread hstrings hcondition hold
    (length_names c.set ▸ hroom) hnew htyped hknown hresolve
  rw [add, houtcome]
  refine ⟨rfl, ?_⟩
  simp [settle, RuleSet.names, ruleOf]

/-- A source with one rule, which is true of no bytes only. -/
def emptyOnly : String := "rule c \x7bcondition:filesize<1\x7d"

/-- The rule of that source. -/
def isEmptyFile : RuleDecl :=
  { alwaysTrue with
    name := "c"
    span := ⟨.start, ⟨29, 1, 30⟩⟩
    condition := some (.compare .less .filesize (.int 1) ⟨⟨26, 1, 27⟩, ⟨27, 1, 28⟩⟩) }

private theorem add_smallest {names : List String} (hnames : c.set.names = names)
    (hroom : names.length < Limits.ruleCount) (hnodup : (names ++ ["a"]).Nodup) :
    (c.add smallest).1 = .ok () ∧ (c.add smallest).2.set.names = names ++ ["a"] :=
  add_plain alwaysTrue hnames (by decide +kernel) rfl rfl hroom hnodup trivial
    (List.forall_mem_cons.mpr ⟨trivial, List.forall_mem_nil _⟩) trivial

private theorem add_dependent {names : List String} (hnames : c.set.names = names)
    (hroom : names.length < Limits.ruleCount) (hnodup : (names ++ ["b"]).Nodup)
    (hknown : "a" ∈ names) :
    (c.add dependent).1 = .ok () ∧ (c.add dependent).2.set.names = names ++ ["b"] :=
  add_plain sameAsFirst hnames (by decide +kernel) rfl rfl hroom hnodup trivial
    (List.forall_mem_cons.mpr ⟨hknown, List.forall_mem_nil _⟩) trivial

private theorem add_emptyOnly {names : List String} (hnames : c.set.names = names)
    (hroom : names.length < Limits.ruleCount) (hnodup : (names ++ ["c"]).Nodup) :
    (c.add emptyOnly).1 = .ok () ∧ (c.add emptyOnly).2.set.names = names ++ ["c"] := by
  refine add_plain isEmptyFile hnames (by decide +kernel) rfl rfl hroom hnodup
    ⟨rfl, rfl⟩ (fun part hpart => ?_) ⟨trivial, trivial⟩
  -- no part of the comparison is a name
  rw [Expr.subterms_compare] at hpart
  simp only [List.mem_cons, List.mem_append, Expr.subterms, Expr.subtermsBefore,
    List.not_mem_nil, or_false] at hpart
  rcases hpart with rfl | rfl | rfl <;> trivial

/-- A rule that refers to another comes right after it or at the end. -/
theorem scan_perm_threeSources :
    ∃ set set',
      ((({} : Compiler).addEach [smallest, dependent, emptyOnly] >>= build).run {}).1 = set ∧
      ((({} : Compiler).addEach [emptyOnly, smallest, dependent] >>= build).run {}).1 = set' ∧
      ∀ data, (set.scan data).Perm (set'.scan data) := by
  refine ⟨_, _, rfl, rfl, fun data => ?_⟩
  have hperm : [smallest, dependent, emptyOnly].Perm [emptyOnly, smallest, dependent] :=
    @List.perm_append_comm _ [smallest, dependent] [emptyOnly]
  have h : ({} : Compiler).AcceptsAll [smallest, dependent, emptyOnly] := by
    obtain ⟨h₁, hnames₁⟩ := add_smallest (c := {}) rfl (by decide) (by decide)
    obtain ⟨h₂, hnames₂⟩ := add_dependent hnames₁ (by decide) (by decide) (by decide)
    obtain ⟨h₃, -⟩ := add_emptyOnly hnames₂ (by decide) (by decide)
    exact ⟨h₁, h₂, h₃, trivial⟩
  have h' : ({} : Compiler).AcceptsAll [emptyOnly, smallest, dependent] := by
    obtain ⟨h₁, hnames₁⟩ := add_emptyOnly (c := {}) rfl (by decide) (by decide)
    obtain ⟨h₂, hnames₂⟩ := add_smallest hnames₁ (by decide) (by decide)
    obtain ⟨h₃, -⟩ := add_dependent hnames₂ (by decide) (by decide) (by decide)
    exact ⟨h₁, h₂, h₃, trivial⟩
  exact (scan_perm {} _ _ hperm h h' {} {} _ _ rfl rfl data).1

end Compiler

end PackageScan
