import PackageScan.Proofs.Log.Yielding

/-!
# Logged work and what it ensures

Work that runs a scanner does not always yield one value, since a scanner may look at the log. What
it answers is described by a property that holds from every journal (`Logged.Ensures`), and a chain
of steps is described step by step. Yielding a value is ensuring to be that value; of work that is
left open, only that it answers with what it answers from some journal (`Logged.Answers`).
-/

namespace PackageScan

namespace Logged

variable {α β : Type} {P Q : α → Prop} {R : β → Prop} {work : Logged α} {f : α → Logged β}

/-- From every journal the work answers with something that has the property. -/
def Ensures (work : Logged α) (P : α → Prop) : Prop := ∀ j : Journal, P (work.run j).1

/-- From some journal the work answers with the value. -/
def Answers (work : Logged α) (a : α) : Prop := ∃ j : Journal, (work.run j).1 = a

theorem ensures_answers (work : Logged α) : Ensures work (Answers work) := fun j => ⟨j, rfl⟩

theorem ensures_pure {a : α} (h : P a) : Ensures (pure a) P := fun _ => h

theorem Yields.ensures {a : α} (h : Yields work a) (ha : P a) : Ensures work P := by
  intro j
  rw [h j]
  exact ha

theorem Ensures.mono (h : Ensures work P) (hPQ : ∀ a, P a → Q a) : Ensures work Q :=
  fun j => hPQ _ (h j)

/-- A chain ensures what its rest ensures on all that its first step may answer. -/
theorem Ensures.bind (h : Ensures work P) (hf : ∀ a, P a → Ensures (f a) R) :
    Ensures (work >>= f) R := by
  intro j
  have hfirst : P (work.run j).1 := h j
  exact hf _ hfirst (work.run j).2

/-- A chain whose first step yields a value ensures what its rest does on that value. -/
theorem Yields.bind_ensures {a : α} (h : Yields work a) (hf : Ensures (f a) R) :
    Ensures (work >>= f) R := by
  refine Ensures.bind (P := fun b => b = a) h fun b hb => ?_
  rw [hb]
  exact hf

/-- Whatever only logs may come first. -/
theorem Ensures.after {log : Logged Unit} {rest : Unit → Logged β} (h : Ensures (rest ()) R) :
    Ensures (log >>= rest) R :=
  Yields.bind_ensures (fun _ => rfl) h

/-- What the log says about the scan in progress does not matter. -/
theorem Ensures.withScope (scope : Scope) (h : Ensures work P) :
    Ensures (Log.withScope scope work) P := by
  intro j
  exact h { j with scope := some scope }

end Logged

end PackageScan
