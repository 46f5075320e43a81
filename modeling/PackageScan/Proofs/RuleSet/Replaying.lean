import PackageScan.Proofs.RuleSet.Joining
import PackageScan.Proofs.RuleSet.Reordering

/-!
# Rejected sources leave no trace

What becomes of a source hangs on the preferences and on the rules that have been accepted before it
(`Compiler.outcome_congr`), and a rejected source changes neither. So the sources that a compiler
has accepted are accepted by a fresh one as well, which ends up with the same rule set
(`Compiler.replays_acceptedOf`).

Only the counters tell of the rejected ones. `Compiler.Tallies` ties them to what has been given and
to what is held: each source is counted once, with all its bytes, and rules and strings are those of
the rule set.
-/

namespace PackageScan

namespace RuleSet

variable {limit : Nat} {s s' : RuleSet} {decl : RuleDecl} {rules : List RuleDecl}

/-- Rules that are pushed one after another add up. -/
private theorem size_pushAll (h : s.pushAll limit rules = .ok s') :
    s'.rules.size = s.rules.size + rules.length ∧
      s'.patterns.size = s.patterns.size + (rules.map fun r => r.strings.length).sum := by
  induction rules generalizing s with
  | nil =>
    obtain rfl := Except.ok.inj h
    exact ⟨rfl, rfl⟩
  | cons rule rest ih =>
    obtain ⟨s₁, hpush, hrest⟩ := pushAll_cons_eq_ok.mp h
    obtain ⟨hrules, hpatterns⟩ := size_push hpush
    obtain ⟨hrules', hpatterns'⟩ := ih hrest
    rw [List.length_cons, List.map_cons, List.sum_cons]
    omega

end RuleSet

namespace Compiler

variable {c c' : Compiler} {source : String} {sources : List String}

/-! ### Counters -/

/-- The counters of a compiler that has been given the sources. -/
structure Tallies (c : Compiler) (sources : List String) : Prop where
  calls_eq : c.stats.accepted + c.stats.rejected = sources.length
  rules_eq : c.stats.rules = c.set.rules.size
  strings_eq : c.stats.strings = c.set.patterns.size
  bytes_eq : c.stats.bytes = (sources.map String.utf8ByteSize).sum

private theorem tallies_fresh (preferences : CompilerPreferences) :
    ({ preferences } : Compiler).Tallies [] where
  calls_eq := rfl
  rules_eq := rfl
  strings_eq := rfl
  bytes_eq := rfl

/-- **A step.** One more source is counted, and its rules if it is accepted. -/
theorem Tallies.add (h : c.Tallies sources) (source : String) :
    (c.add source).2.Tallies (sources ++ [source]) := by
  have hcalls := h.calls_eq
  have hbytes := h.bytes_eq
  rw [Compiler.add]
  cases houtcome : c.outcome source with
  | error e =>
    refine ⟨?_, h.rules_eq, h.strings_eq, ?_⟩
    · rw [List.length_append, List.length_singleton, ← hcalls]
      exact (Nat.add_assoc ..).symm
    · rw [List.map_append, List.sum_append, ← hbytes]
      exact congrArg (c.stats.bytes + ·) (List.sum_singleton).symm
  | ok result =>
    obtain ⟨set, rules⟩ := result
    obtain ⟨-, -, hpush⟩ := outcome_eq_ok_iff_rulesIn?.mp houtcome
    obtain ⟨hrules, hpatterns⟩ := RuleSet.size_pushAll hpush
    refine ⟨?_, ?_, ?_, ?_⟩
    · rw [List.length_append, List.length_singleton, ← hcalls]
      exact Nat.add_right_comm ..
    · exact (congrArg (· + rules.length) h.rules_eq).trans hrules.symm
    · have hsum : rules.foldl (fun n r => n + r.strings.length) 0 =
          (rules.map fun r => r.strings.length).sum := by
        rw [List.sum_eq_foldl, List.foldl_map]
      exact (congrArg₂ (· + ·) h.strings_eq hsum).trans hpatterns.symm
    · rw [List.map_append, List.sum_append, ← hbytes]
      exact congrArg (c.stats.bytes + ·) (List.sum_singleton).symm

/-- **A run.** Every source is counted, whatever becomes of it. -/
theorem tallies_addAll (preferences : CompilerPreferences) (sources : List String) :
    (({ preferences } : Compiler).addAll sources).Tallies sources := by
  induction sources using List.reverseRecOn with
  | nil => exact tallies_fresh preferences
  | append_singleton sources source ih =>
    rw [addAll, List.foldl_concat]
    exact ih.add source

/-- One acceptance is counted for each accepted source. -/
private theorem accepted_addAll (c : Compiler) (sources : List String) :
    (c.addAll sources).stats.accepted = c.stats.accepted + (c.acceptedOf sources).length := by
  induction sources generalizing c with
  | nil => rfl
  | cons source rest ih =>
    have hrun : c.addAll (source :: rest) = (c.add source).2.addAll rest := rfl
    have hverdict : (c.add source).1 = (c.outcome source).map fun _ => () := rfl
    rw [hrun, ih, acceptedOf, hverdict, add]
    cases c.outcome source with
    | error e => rfl
    | ok result => exact Nat.add_right_comm ..

/-- What becomes of a source hangs on the preferences and the rule set alone. -/
theorem outcome_congr (hpreferences : c'.preferences = c.preferences) (hset : c'.set = c.set)
    (source : String) : c'.outcome source = c.outcome source := by
  rw [outcome, outcome, declared, declared, hpreferences, hset]

/-- **A run without the rejected sources.** A compiler with the same rule set accepts every source
that has been accepted, and ends with the same rule set. -/
theorem replays_acceptedOf (hpreferences : c'.preferences = c.preferences) (hset : c'.set = c.set)
    (sources : List String) :
    c'.AcceptsAll (c.acceptedOf sources) ∧
      (c'.addAll (c.acceptedOf sources)).set = (c.addAll sources).set := by
  -- the compilers differ in their counters only, and go on so after every source
  induction sources generalizing c c' with
  | nil => exact ⟨trivial, hset⟩
  | cons source rest ih =>
    have hrun : c.addAll (source :: rest) = (c.add source).2.addAll rest := rfl
    have hverdict : (c.add source).1 = (c.outcome source).map fun _ => () := rfl
    have hverdict' : (c'.add source).1 = (c.outcome source).map fun _ => () :=
      congrArg (Except.map _) (outcome_congr hpreferences hset source)
    rw [acceptedOf, hverdict, hrun]
    cases houtcome : c.outcome source with
    | error e =>
      refine ih (hpreferences.trans (preferences_add c source).symm) ?_
      rw [hset, add, houtcome]
      rfl
    | ok result =>
      have hset' : (c'.add source).2.set = (c.add source).2.set := by
        rw [add, add, outcome_congr hpreferences hset, houtcome]
        rfl
      have hpreferences' : (c'.add source).2.preferences = (c.add source).2.preferences := by
        rw [preferences_add, preferences_add, hpreferences]
      obtain ⟨haccepts, hend⟩ := ih hpreferences' hset'
      rw [houtcome] at hverdict'
      exact ⟨⟨hverdict', haccepts⟩, hend⟩

/-- **Rejected sources leave no trace but the counters.** After any sources the counters tell how
many there have been, how many bytes they had, and how many rules and patterns are held. A fresh
compiler with the same preferences that is given only the accepted ones accepts every one of them,
and both build the same rule set. -/
theorem traceless_addEach (preferences : CompilerPreferences) (sources : List String)
    (j j' : Journal) :
    let fresh : Compiler := { preferences }
    let c := ((fresh.addEach sources).run j).1
    let accepted := fresh.acceptedOf sources
    c.Tallies sources ∧ c.stats.accepted = accepted.length ∧ fresh.AcceptsAll accepted ∧
      ((fresh.addEach accepted >>= build).run j').1 =
        ((fresh.addEach sources >>= build).run j).1 := by
  intro fresh c accepted
  have hc : c = fresh.addAll sources := addEach_yields fresh sources j
  have hbuilt (sources : List String) (j : Journal) :
      ((fresh.addEach sources >>= build).run j).1 = (fresh.addAll sources).set :=
    (addEach_yields fresh sources).bind (build_yields _) j
  obtain ⟨haccepts, hset⟩ := replays_acceptedOf (c := fresh) rfl rfl sources
  refine ⟨hc ▸ tallies_addAll preferences sources, ?_, haccepts, ?_⟩
  · rw [hc, accepted_addAll]
    exact Nat.zero_add _
  · rw [hbuilt, hbuilt, hset]

end Compiler

end PackageScan
