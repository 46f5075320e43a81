import Mathlib.Data.List.Count
import PackageScan.Proofs.Dictionary
import PackageScan.Proofs.Log.Ensuring
import PackageScan.Scan.Metrics

/-!
# Counters and their names

Counters are kept under texts. What runs of scanners raise is named here without texts
(`Metrics.Tally`): a counter for each kind of scanner and each event, and one for each kind and
each rule. No two tallies have the same text (`Metrics.Tally.name_injective`), so that a counter is
raised by its own tally only, and counting is adding (`Metrics.countOf_countEach`). Announcing a
metric does not change what is counted.
-/

namespace PackageScan

namespace Metrics

open Logged

variable {m : Metrics} {a n : String}

/-! ### One metric -/

theorem countOf_count : (m.count a).countOf n = m.countOf n + if n = a then 1 else 0 := by
  rw [countOf, count, Dictionary.find?_insert]
  split_ifs with h
  · rw [h]
    rfl
  · rfl

@[simp] theorem timingsOf_count : (m.count a).timingsOf n = m.timingsOf n := rfl

theorem timingsOf_time : (m.time a).timingsOf n = m.timingsOf n + if n = a then 1 else 0 := by
  rw [timingsOf, time, Dictionary.find?_insert]
  split_ifs with h
  · rw [h]
    rfl
  · rfl

@[simp] theorem countOf_time : (m.time a).countOf n = m.countOf n := rfl

/-! ### Several metrics -/

/-- Raises counters one after another. -/
def countEach (m : Metrics) (names : List String) : Metrics := names.foldl count m

/-- A counter is raised as often as its name occurs. -/
theorem countOf_countEach (m : Metrics) (names : List String) :
    (m.countEach names).countOf n = m.countOf n + names.count n := by
  induction names generalizing m with
  | nil => rfl
  | cons name names ih =>
    have hrest : (m.countEach (name :: names)).countOf n =
        (m.count name).countOf n + names.count n := ih (m.count name)
    have hfirst : (if n = name then 1 else 0) = if name == n then 1 else 0 := by
      by_cases h : n = name
      · rw [if_pos h, h, beq_self_eq_true, if_pos rfl]
      · rw [if_neg h, beq_eq_false_iff_ne.mpr (Ne.symm h), if_neg Bool.false_ne_true]
    rw [hrest, countOf_count, List.count_cons, hfirst]
    omega

@[simp] theorem timingsOf_countEach (m : Metrics) (names : List String) :
    (m.countEach names).timingsOf n = m.timingsOf n := by
  induction names generalizing m with
  | nil => rfl
  | cons name names ih => exact ih (m.count name)

/-! ### Announcements -/

theorem countLogged_yields (m : Metrics) (name : String) :
    Yields (m.countLogged name) (m.count name) := by
  intro j
  rw [countLogged]
  split <;> rfl

theorem timeLogged_yields (m : Metrics) (name : String) :
    Yields (m.timeLogged name) (m.time name) := by
  intro j
  rw [timeLogged]
  split <;> rfl

theorem countAll_yields (m : Metrics) (names : List String) :
    Yields (countAll names m) (m.countEach names) := by
  induction names generalizing m with
  | nil => exact yields_pure m
  | cons name names ih => exact (countLogged_yields m name).bind (ih (m.count name))

/-! ### Tallies -/

/-- What runs of scanners count. -/
inductive Tally where
  /-- The runs that end well. -/
  | success (kind : ScannerKind)
  /-- The runs that fail. -/
  | failure (kind : ScannerKind)
  /-- The runs with matches. -/
  | matching (kind : ScannerKind)
  /-- The runs in which a rule matches. -/
  | rule (kind : ScannerKind) (id : Nat)
  deriving DecidableEq, Repr

namespace Tally

/-- The name under which a tally is counted. -/
def name : Tally → String
  | success kind => successes kind
  | failure kind => failures kind
  | matching kind => matchings kind
  | rule kind id => ruleCounter kind id

/-- The kind of scanner. -/
def kind : Tally → ScannerKind
  | success kind | failure kind | matching kind | rule kind _ => kind

/-- What is counted, without the kind of scanner. -/
def event : Tally → String
  | success _ => "success"
  | failure _ => "failure"
  | matching _ => "has_matches"
  | rule _ id => "rule." ++ (id.repr ++ ".match")

theorem name_eq (t : Tally) : t.name = "devhub." ++ (t.kind.name ++ ("." ++ t.event)) := by
  refine String.toList_injective ?_
  cases t with
  | success kind | failure kind | matching kind =>
    simp [name, successes, failures, matchings, counter, event, Tally.kind, toString]
  | rule kind id => simp [name, ruleCounter, event, Tally.kind, toString]

/-- No name of a kind has a point in it, so that the kind can be told from what follows it. -/
private theorem append_point_inj {k k' : ScannerKind} {s s' : String}
    (h : k.name ++ ("." ++ s) = k'.name ++ ("." ++ s')) : k = k' ∧ s = s' := by
  have hlists := congrArg String.toList h
  cases k <;> cases k' <;> simp [ScannerKind.name] at hlists ⊢
  all_goals exact String.toList_injective hlists

private theorem event_inj {t t' : Tally} (hkind : t.kind = t'.kind) (h : t.event = t'.event) :
    t = t' := by
  have hlists := congrArg String.toList h
  cases t <;> cases t' <;> cases hkind <;> simp [event] at hlists ⊢
  -- two rules are left, and the digits of their identifiers are the same
  have hvalues := congrArg (fun digits => Nat.ofDigitChars 10 digits 0) hlists
  simpa using hvalues

/-- **No two tallies have the same name.** -/
theorem name_injective : Function.Injective name := by
  intro t t' h
  rw [name_eq, name_eq, String.append_right_inj] at h
  obtain ⟨hkind, hevent⟩ := append_point_inj h
  exact event_inj hkind hevent

end Tally

theorem timer_injective : Function.Injective timer := by
  intro k k' h
  cases k <;> cases k' <;> first | rfl | exact absurd h (by decide)

/-- Raising the counter of a tally leaves those of the others alone. -/
theorem countOf_count_tally (m : Metrics) (s t : Tally) :
    (m.count s.name).countOf t.name = m.countOf t.name + if t = s then 1 else 0 := by
  rw [countOf_count]
  simp only [Tally.name_injective.eq_iff]

/-- Raising the counters of some tallies raises the counter of a tally as often as it is among
them. -/
theorem countOf_tallies (m : Metrics) (tallies : List Tally) (t : Tally) :
    (m.countEach (tallies.map Tally.name)).countOf t.name =
      m.countOf t.name + tallies.count t := by
  rw [countOf_countEach, List.count_map_of_injective _ _ Tally.name_injective]

end Metrics

end PackageScan
