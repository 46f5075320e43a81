import Mathlib.Data.List.Forall2

/-!
# Chains of steps that may fail

The readers, the checks and the compiler are chains of steps in `Except`. What a chain answers
is taken apart here once: it succeeds when each step does, and fails at the first step that does
not. Proofs about a chain rewrite with these equivalences and never unfold `bind`.
-/

namespace PackageScan

namespace Outcome

variable {ε ε' α β : Type}

@[simp] theorem ok_bind (a : α) (f : α → Except ε β) : (Except.ok a >>= f) = f a := rfl

@[simp] theorem error_bind (e : ε) (f : α → Except ε β) :
    ((Except.error e : Except ε α) >>= f) = .error e := rfl

/-- A chain succeeds when its first step does and the rest succeeds on the result. -/
theorem bind_eq_ok {x : Except ε α} {f : α → Except ε β} {b : β} :
    x >>= f = .ok b ↔ ∃ a, x = .ok a ∧ f a = .ok b := by
  cases x with
  | error e => simp
  | ok a => simp

/-- A check followed by a step: the check passes and the step succeeds. -/
theorem check_bind_eq_ok {x : Except ε Unit} {f : Unit → Except ε β} {b : β} :
    x >>= f = .ok b ↔ x = .ok () ∧ f () = .ok b := by
  cases x with
  | error e => simp
  | ok a => simp

/-- A chain fails when its first step does, or when the rest fails on the result. -/
theorem bind_eq_error {x : Except ε α} {f : α → Except ε β} {e : ε} :
    x >>= f = .error e ↔ x = .error e ∨ ∃ a, x = .ok a ∧ f a = .error e := by
  cases x with
  | error e' => simp
  | ok a => simp

/-- A renamed result comes from a result. -/
theorem map_eq_ok {x : Except ε α} {f : α → β} {b : β} :
    x.map f = .ok b ↔ ∃ a, x = .ok a ∧ f a = b := by
  cases x <;> simp [Except.map]

@[simp] theorem mapError_ok (f : ε → ε') (a : α) :
    (Except.ok a : Except ε α).mapError f = .ok a := rfl

@[simp] theorem mapError_error (f : ε → ε') (e : ε) :
    (Except.error e : Except ε α).mapError f = .error (f e) := rfl

/-- Renaming errors does not touch results. -/
theorem mapError_eq_ok {x : Except ε α} {f : ε → ε'} {a : α} :
    x.mapError f = .ok a ↔ x = .ok a := by
  cases x <;> simp

/-- A renamed error comes from an error. -/
theorem mapError_eq_error {x : Except ε α} {f : ε → ε'} {e : ε'} :
    x.mapError f = .error e ↔ ∃ e₀, x = .error e₀ ∧ f e₀ = e := by
  cases x <;> simp

/-- When all that follows succeeds, an error is a renamed one. -/
theorem exists_of_mapError_bind_eq_error {x : Except ε α} {f : ε → ε'} {g : α → β} {e : ε'}
    (h : (x.mapError f >>= fun a => .ok (g a)) = .error e) : ∃ e₀, f e₀ = e := by
  rcases bind_eq_error.mp h with h | ⟨a, -, h⟩
  · obtain ⟨e₀, -, he⟩ := mapError_eq_error.mp h
    exact ⟨e₀, he⟩
  · exact nomatch h

/-- Chains that succeed together have results of the same kind. -/
theorem toOption_map_eq {x y : Except ε α} {f : α → β}
    (h : ∀ a, x = .ok a → ∃ b, y = .ok b ∧ f b = f a)
    (h' : ∀ b, y = .ok b → ∃ a, x = .ok a ∧ f a = f b) :
    (x.map f).toOption = (y.map f).toOption := by
  cases x with
  | ok a =>
    obtain ⟨b, rfl, hb⟩ := h a rfl
    exact congrArg some hb.symm
  | error e =>
    cases y with
    | ok b =>
      obtain ⟨a, ha, -⟩ := h' b rfl
      exact nomatch ha
    | error e' => rfl

/-- A step over a list succeeds when it does on each entry. -/
theorem mapM_eq_ok {f : α → Except ε β} {xs : List α} {ys : List β} :
    xs.mapM f = .ok ys ↔ List.Forall₂ (fun x y => f x = .ok y) xs ys := by
  induction xs generalizing ys with
  | nil =>
    rw [List.mapM_nil, List.forall₂_nil_left_iff]
    exact ⟨fun h => (Except.ok.inj h).symm, fun h => by rw [h]; rfl⟩
  | cons x xs ih =>
    rw [List.mapM_cons, bind_eq_ok, List.forall₂_cons_left_iff]
    constructor
    · rintro ⟨y, hy, h⟩
      obtain ⟨zs, hzs, h⟩ := bind_eq_ok.mp h
      exact ⟨y, zs, hy, ih.mp hzs, (Except.ok.inj h).symm⟩
    · rintro ⟨y, zs, hy, hzs, rfl⟩
      exact ⟨y, hy, bind_eq_ok.mpr ⟨zs, ih.mpr hzs, rfl⟩⟩

/-- A step over a list fails only where it fails on an entry. -/
theorem exists_of_mapM_eq_error {f : α → Except ε β} {xs : List α} {e : ε}
    (h : xs.mapM f = .error e) : ∃ x ∈ xs, f x = .error e := by
  induction xs with
  | nil => exact absurd h (by rw [List.mapM_nil]; exact fun h => nomatch h)
  | cons x xs ih =>
    rw [List.mapM_cons] at h
    rcases bind_eq_error.mp h with h | ⟨y, -, h⟩
    · exact ⟨x, List.mem_cons_self, h⟩
    · rcases bind_eq_error.mp h with h | ⟨ys, -, h⟩
      · obtain ⟨x', hx', h⟩ := ih h
        exact ⟨x', List.mem_cons_of_mem x hx', h⟩
      · exact nomatch h

end Outcome

end PackageScan
