import PackageScan.Proofs.Log.Yielding
import PackageScan.Proofs.RuleSet.Deciding
import PackageScan.Scan.Policy

/-!
# The policies agree on what both accept

Rules that the isolated policy accepts one by one can be compiled all together, and give the same
rule set. `Snapshot.accepted` is the snapshot of these rules; that its bodies make up one source
that a compiler accepts is `Compiler.exists_outcome_acceptedOf`. What is left is the way there and
back: the isolated policy adds the bodies one after another, whatever it logs, and all rules of
the accepted snapshot take part in compilation.
-/

namespace PackageScan

namespace Snapshot

open Logged

variable {s : Snapshot}

/-! ### The rules that the isolated policy accepts -/

/-- Those of the rules whose sources are accepted when they are added one after another. -/
def acceptedFrom (c : Compiler) : List (StoredRule × String) → List (StoredRule × String)
  | [] => []
  | (rule, source) :: rest =>
    match (c.add source).1 with
    | .ok () => (rule, source) :: acceptedFrom (c.add source).2 rest
    | .error _ => acceptedFrom (c.add source).2 rest

/-- The snapshot of the rules that the isolated policy accepts. -/
def accepted (preferences : CompilerPreferences) (s : Snapshot) : Snapshot where
  kind := s.kind
  rules := (acceptedFrom { preferences } s.compilable).map Prod.fst

private theorem map_snd_acceptedFrom (c : Compiler) (pairs : List (StoredRule × String)) :
    (acceptedFrom c pairs).map Prod.snd = c.acceptedOf (pairs.map Prod.snd) := by
  induction pairs generalizing c with
  | nil => rfl
  | cons pair rest ih =>
    obtain ⟨rule, source⟩ := pair
    rw [acceptedFrom, List.map_cons, Compiler.acceptedOf]
    cases (c.add source).1 with
    | ok _ => exact congrArg (source :: ·) (ih _)
    | error _ => exact ih _

private theorem acceptedFrom_sublist (c : Compiler) (pairs : List (StoredRule × String)) :
    (acceptedFrom c pairs).Sublist pairs := by
  induction pairs generalizing c with
  | nil => exact .slnil
  | cons pair rest ih =>
    rw [acceptedFrom]
    split
    · exact .cons_cons pair (ih _)
    · exact .cons pair (ih _)

/-- A rule that takes part does so in every snapshot of its kind. -/
private theorem mem_compilable {rule : StoredRule} {source : String}
    (h : (rule, source) ∈ s.compilable) :
    rule.scanner = s.kind ∧ rule.body? = some source := by
  obtain ⟨rule', hrule', hbody⟩ := List.mem_filterMap.mp h
  obtain ⟨source', hsource', hpair⟩ := Option.map_eq_some_iff.mp hbody
  cases hpair
  exact ⟨by simpa using (List.mem_filter.mp hrule').2, hsource'⟩

/-- All rules of the accepted snapshot take part in compilation, with the same sources. -/
private theorem compilable_accepted (preferences : CompilerPreferences) (s : Snapshot) :
    (s.accepted preferences).compilable = acceptedFrom { preferences } s.compilable := by
  have hmem : ∀ pair ∈ acceptedFrom { preferences } s.compilable,
      pair.1.scanner = s.kind ∧ pair.1.body? = some pair.2 := fun pair h =>
    mem_compilable ((acceptedFrom_sublist _ s.compilable).mem h)
  -- what has been accepted has taken part, so no filter drops it
  rw [compilable, accepted]
  dsimp only
  generalize acceptedFrom { preferences } s.compilable = pairs at hmem
  induction pairs with
  | nil => rfl
  | cons pair rest ih =>
    obtain ⟨⟨hkind, hbody⟩, hrest⟩ := List.forall_mem_cons.mp hmem
    rw [List.map_cons, List.filter_cons_of_pos (by simpa using hkind), List.filterMap_cons, hbody,
      Option.map_some]
    exact congrArg (pair :: ·) (ih hrest)

/-! ### What the policies yield -/

private theorem addIsolated_yields (c : Compiler) (pairs : List (StoredRule × String)) :
    Yields (addIsolated pairs c) (c.addAll (pairs.map Prod.snd)) := by
  induction pairs generalizing c with
  | nil => exact yields_pure c
  | cons pair rest ih =>
    obtain ⟨rule, source⟩ := pair
    rw [addIsolated]
    refine .bind (Compiler.addSource_yields c source) ?_
    dsimp only
    -- a warning may be logged first; the rules that are left are the same
    split
    · exact .after (ih _)
    · exact ih _

/-- The isolated policy yields the rule set after the sources one by one. -/
private theorem isolated_yields (preferences : CompilerPreferences) (s : Snapshot) :
    Yields (s.compile .isolated preferences) (.ok (s.compileIsolated preferences).set) :=
  .bind (addIsolated_yields _ _) (.bind (Compiler.build_yields _) (yields_pure _))

/-- **The policies agree.** Let the rules that the isolated policy accepts have bodies that are,
with line breaks between them, at most as large as a source may be, and have at most as many tokens
in total as a source may have. Then compiling these rules all or nothing succeeds, and yields the
rule set that the isolated policy yields on the whole snapshot. -/
theorem compile_accepted (preferences : CompilerPreferences) (s : Snapshot) (j j' : Journal)
    (hsize : (s.accepted preferences).joined.utf8ByteSize ≤ Limits.sourceSize)
    (hcount : Compiler.totalTokens ((s.accepted preferences).compilable.map Prod.snd) ≤
      Limits.tokenCount) :
    ∃ set, (((s.accepted preferences).compile .allOrNothing preferences).run j).1 = .ok set ∧
      ((s.compile .isolated preferences).run j').1 = .ok set := by
  have hsources : (s.accepted preferences).compilable.map Prod.snd =
      ({ preferences } : Compiler).acceptedOf (s.compilable.map Prod.snd) := by
    rw [compilable_accepted, map_snd_acceptedFrom]
  rw [joined, hsources] at hsize
  rw [hsources] at hcount
  have hstart : RuleSet.Built ({ preferences } : Compiler).preferences.programLimit []
      ({ preferences } : Compiler).set := .empty
  obtain ⟨rules, houtcome⟩ := Compiler.exists_outcome_acceptedOf hstart _ hsize hcount
  refine ⟨(s.compileIsolated preferences).set, ?_, isolated_yields preferences s j'⟩
  rw [compile, RuleSet.compileLogged_yields preferences _ j, joined, hsources, RuleSet.compile,
    houtcome]
  rfl

/-- A rule that finds a string. -/
def finding : String := "rule a \x7b strings: $x = \"ab\" condition: $x \x7d"

/-- A rule that finds a string where the other one does too. -/
def referring : String := "rule b \x7b strings: $y = \"c\" condition: a and $y \x7d"

/-- Both of them, with one between them that cannot be read. -/
def brokenBetween : Snapshot where
  kind := .yara
  rules := [⟨1, "a", .yara, some finding, true⟩, ⟨2, "!", .yara, some "!", true⟩,
    ⟨3, "b", .yara, some referring, true⟩]

/-- The two are accepted, and as one source they give the rules that they give one by one. -/
theorem compile_accepted_brokenBetween :
    (brokenBetween.accepted {}).compilable.map Prod.snd = [finding, referring] ∧
    (brokenBetween.accepted {}).joined.utf8ByteSize ≤ Limits.sourceSize ∧
    Compiler.totalTokens ((brokenBetween.accepted {}).compilable.map Prod.snd) ≤
      Limits.tokenCount ∧
    ∃ set, (((brokenBetween.accepted {}).compile .allOrNothing {}).run {}).1 = .ok set ∧
      ((brokenBetween.compile .isolated {}).run {}).1 = .ok set ∧
      set.scan "abc".toUTF8 = [⟨"a", [], []⟩, ⟨"b", [], []⟩] := by
  have hcomputed : (RuleSet.extendAll {} .empty (brokenBetween.compilable.map Prod.snd)).map id
      (·.scan "abc".toUTF8) = ([finding, referring], [⟨"a", [], []⟩, ⟨"b", [], []⟩]) := by
    decide +kernel
  have hrun := Compiler.extendAll_eq (c := {}) .empty (brokenBetween.compilable.map Prod.snd)
  rw [show RuleSet.extendAll {} .empty _ = _ from hrun] at hcomputed
  obtain ⟨hkept, hscan⟩ := Prod.mk.inj hcomputed
  have haccepted : (brokenBetween.accepted {}).compilable.map Prod.snd = [finding, referring] := by
    rw [compilable_accepted, map_snd_acceptedFrom]
    exact hkept
  have hsize : (brokenBetween.accepted {}).joined.utf8ByteSize ≤ Limits.sourceSize := by
    rw [joined, haccepted]
    decide +kernel
  have hcount : Compiler.totalTokens ((brokenBetween.accepted {}).compilable.map Prod.snd) ≤
      Limits.tokenCount := by
    rw [haccepted]
    decide +kernel
  obtain ⟨set, htogether, hone⟩ := compile_accepted {} brokenBetween {} {} hsize hcount
  obtain rfl : (brokenBetween.compileIsolated {}).set = set :=
    Except.ok.inj ((isolated_yields {} brokenBetween {}).symm.trans hone)
  exact ⟨haccepted, hsize, hcount, _, htogether, hone, hscan⟩

end Snapshot

end PackageScan
