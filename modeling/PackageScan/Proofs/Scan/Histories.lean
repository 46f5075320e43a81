import PackageScan.Proofs.Scan.Counting
import PackageScan.Scan.Submission

/-!
# Histories of a desk

A history is a list of steps that are taken at one desk, each of which may leave a record of what
has happened. Some steps are runs; others are changes to the store from outside, which may be of any
kind as long as they leave the rows in question alone (`Store.Upkeep`). What each step preserves
holds after every history (`Desk.runAll_ensures`).
-/

namespace PackageScan

open Logged

/-- A call is answered when it is not refused. -/
theorem Store.guarded_eq_ok {α : Type} {s : Store} {call : StoreCall}
    {answer : Except StoreError α} {a : α} :
    s.guarded call answer = .ok a ↔ s.outage? call = none ∧ answer = .ok a := by
  rw [Store.guarded]
  cases s.outage? call <;> simp

/-- A store that refuses nothing answers each call. -/
theorem Store.guarded_eq_self {α : Type} {s : Store} {call : StoreCall}
    {answer : Except StoreError α} (h : s.outages = []) : s.guarded call answer = answer := by
  rw [Store.guarded, Store.outage?, h]
  rfl

/-- A change to the store from outside that leaves certain rows as they are. -/
structure Store.Upkeep {α : Type} (rows : Store → List α) where
  /-- The change. -/
  apply : Store → Store
  /-- It leaves the rows as they are. -/
  rows_apply : ∀ s, rows (apply s) = rows s

namespace Desk

/-! ### The timers of a desk -/

/-- The desk after the timer of a scanner has been given another duration. -/
def timed (desk : Desk) (kind : ScannerKind) : Desk :=
  { desk with metrics := desk.metrics.time (Metrics.timer kind) }

section Timed

variable (desk : Desk) (kind k : ScannerKind)

@[simp] theorem store_timed : (desk.timed kind).store = desk.store := rfl

@[simp] theorem dispatcher_timed : (desk.timed kind).dispatcher = desk.dispatcher := rfl

@[simp] theorem countOf_timed (name : String) :
    (desk.timed kind).metrics.countOf name = desk.metrics.countOf name :=
  rfl

theorem timingsOf_timed : (desk.timed kind).metrics.timingsOf (Metrics.timer k) =
    desk.metrics.timingsOf (Metrics.timer k) + if k = kind then 1 else 0 := by
  rw [timed, Metrics.timingsOf_time]
  simp only [Metrics.timer_injective.eq_iff]

end Timed

/-! ### Steps -/

variable {σ τ : Type}

/-- Takes steps one after another and collects their records. -/
def runAll (step : σ → Desk → Logged (List τ × Desk)) :
    List σ → Desk → Logged (List τ × Desk)
  | [], desk => return ([], desk)
  | s :: rest, desk => do
    let (records, desk) ← step s desk
    let (more, desk) ← runAll step rest desk
    return (records ++ more, desk)

theorem runAll_nil_yields (step : σ → Desk → Logged (List τ × Desk)) (desk : Desk) :
    Yields (runAll step [] desk) ([], desk) :=
  yields_pure _

theorem runAll_cons_yields {step : σ → Desk → Logged (List τ × Desk)} {s : σ} {rest : List σ}
    {desk there last : Desk} {records more : List τ} (h : Yields (step s desk) (records, there))
    (hrest : Yields (runAll step rest there) (more, last)) :
    Yields (runAll step (s :: rest) desk) (records ++ more, last) :=
  .bind h (.bind hrest (yields_pure _))

/-- **An invariant of histories.** What relates the records so far to the desk, and is preserved by
each step, holds after all steps. -/
theorem runAll_ensures {step : σ → Desk → Logged (List τ × Desk)} {Inv : List τ → Desk → Prop}
    (hstep : ∀ past desk s, Inv past desk →
      Ensures (step s desk) fun reached => Inv (past ++ reached.1) reached.2)
    (steps : List σ) {past : List τ} {desk : Desk} (h : Inv past desk) :
    Ensures (runAll step steps desk) fun reached => Inv (past ++ reached.1) reached.2 := by
  induction steps generalizing past desk with
  | nil =>
    rw [runAll]
    exact ensures_pure (by rwa [List.append_nil])
  | cons s rest ih =>
    rw [runAll]
    refine (hstep past desk s h).bind fun first hfirst => ?_
    refine (ih hfirst).bind fun later hlater => ensures_pure ?_
    rw [← List.append_assoc]
    exact hlater

end Desk

end PackageScan
