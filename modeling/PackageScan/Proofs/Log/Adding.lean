import PackageScan.Proofs.Dictionary
import PackageScan.RuleSet.Compiler

/-!
# What logged work adds to the journal

An event that is logged inside a scan carries the scanner and the target of that scan
(`Event.IsOf`), provided that it names none of its own. Work that logs only such events, and leaves
the filter and the scan in progress as they are, continues the journal (`Journal.Continues`,
`Logged.Adds`). This holds of a chain if it holds of its steps, so for each function that logs all
there is to see is which keys its events have.

Events of the compiler tell no state of a run: they are notes (`Event.IsNote`).
-/

namespace PackageScan

namespace Event

/-- The event carries the scanner and the target of the scan. -/
structure IsOf (scope : Scope) (e : Event) : Prop where
  /-- It carries the scanner. -/
  scanner_eq : e.context.find? "scanner" = some scope.scanner
  /-- It carries the target. -/
  target_eq : e.context.find? "target" = some scope.target

/-- The state of a run that the event tells. -/
def state? (e : Event) : Option String := e.context.find? "state"

/-- The event is of the scan and tells no state. -/
def IsNote (scope : Scope) (e : Event) : Prop := e.IsOf scope ∧ e.state? = none

end Event

/-- Values under keys of their own: none that names a scan, and none that tells a state. -/
def IsPlain (context : List (String × String)) : Prop :=
  ∀ pair ∈ context, pair.1 ≠ "scanner" ∧ pair.1 ≠ "target" ∧ pair.1 ≠ "state"

/-- What no pair names is not found among the values. -/
theorem lookup_reverse_eq_none {context : List (String × String)} {key : String}
    (h : ∀ pair ∈ context, pair.1 ≠ key) : context.reverse.lookup key = none := by
  refine List.lookup_eq_none_iff.mpr fun pair hpair => ?_
  rw [bne_iff_ne]
  exact (h pair (List.mem_reverse.mp hpair)).symm

namespace Journal

variable {P Q : Event → Prop} {j k l : Journal} {scope : Scope} {event : Event}
variable {context : List (String × String)}

/-- The event as it is recorded, inside the scan in progress. -/
def entry (j : Journal) (event : Event) (context : List (String × String)) : Event :=
  { event with message := Message.clamp event.message }.withContext (j.scopeContext ++ context)

/-- The second journal is the first one with more events, all of which have the property. -/
structure Continues (P : Event → Prop) (j k : Journal) : Prop where
  /-- The filter is the same. -/
  least_eq : k.least = j.least
  /-- The scan in progress is the same. -/
  scope_eq : k.scope = j.scope
  /-- Events are added behind the others. -/
  events_eq : ∃ added, k.events = j.events ++ added ∧ ∀ e ∈ added, P e

namespace Continues

theorem refl (P : Event → Prop) (j : Journal) : Continues P j j :=
  ⟨rfl, rfl, [], (List.append_nil _).symm, fun _ he => absurd he List.not_mem_nil⟩

theorem trans (h : Continues P j k) (h' : Continues P k l) : Continues P j l := by
  obtain ⟨first, hk, hfirst⟩ := h.events_eq
  obtain ⟨second, hl, hsecond⟩ := h'.events_eq
  refine ⟨h'.least_eq.trans h.least_eq, h'.scope_eq.trans h.scope_eq, first ++ second, ?_, ?_⟩
  · rw [hl, hk, List.append_assoc]
  · exact List.forall_mem_append.mpr ⟨hfirst, hsecond⟩

theorem mono (h : Continues P j k) (hPQ : ∀ e, P e → Q e) : Continues Q j k := by
  obtain ⟨added, hk, hadded⟩ := h.events_eq
  exact ⟨h.least_eq, h.scope_eq, added, hk, fun e he => hPQ e (hadded e he)⟩

end Continues

/-! ### One event -/

theorem events_record (h : event.level.passes j.least = true) :
    (j.record event).events = j.events ++ [event] := by
  rw [record, if_pos h]
  exact List.reverse_cons

private theorem least_record : (j.record event).least = j.least := by
  rw [record]
  split_ifs <;> rfl

theorem scope_record : (j.record event).scope = j.scope := by
  rw [record]
  split_ifs <;> rfl

/-- An event is added unless the filter keeps it out. -/
private theorem continues_record (h : P event) : Continues P j (j.record event) := by
  refine ⟨least_record, scope_record, ?_⟩
  by_cases hpasses : event.level.passes j.least = true
  · exact ⟨[event], events_record hpasses, List.forall_mem_singleton.mpr h⟩
  · refine ⟨[], ?_, fun _ he => absurd he List.not_mem_nil⟩
    rw [record, if_neg hpasses, List.append_nil]

/-! ### What an event carries -/

/-- What is found under a key is what the event names last, or what the scan in progress adds. -/
theorem find?_entry (hevent : event.context = []) (key : String) :
    (j.entry event context).context.find? key =
      (context.reverse.lookup key).or (j.scopeContext.reverse.lookup key) := by
  rw [entry, Event.withContext]
  dsimp only
  rw [hevent, Dictionary.find?_insertAll, List.reverse_append, List.lookup_append]
  exact Option.or_none

theorem isOf_entry (hscope : j.scope = some scope) (hevent : event.context = [])
    (hscanner : ∀ pair ∈ context, pair.1 ≠ "scanner")
    (htarget : ∀ pair ∈ context, pair.1 ≠ "target") : (j.entry event context).IsOf scope := by
  constructor
  · rw [find?_entry hevent, lookup_reverse_eq_none hscanner, scopeContext, hscope]
    rfl
  · rw [find?_entry hevent, lookup_reverse_eq_none htarget, scopeContext, hscope]
    rfl

/-- The state that an event tells is the one that it names. -/
theorem state?_entry (hevent : event.context = []) :
    (j.entry event context).state? = context.reverse.lookup "state" := by
  have hscope : j.scopeContext.reverse.lookup "state" = none := by
    rw [scopeContext]
    cases j.scope <;> rfl
  rw [Event.state?, find?_entry hevent, hscope, Option.or_none]

private theorem isNote_entry (hscope : j.scope = some scope) (hevent : event.context = [])
    (hplain : IsPlain context) : (j.entry event context).IsNote scope := by
  refine ⟨isOf_entry hscope hevent (fun pair hpair => (hplain pair hpair).1) fun pair hpair =>
    (hplain pair hpair).2.1, ?_⟩
  rw [state?_entry hevent]
  exact lookup_reverse_eq_none fun pair hpair => (hplain pair hpair).2.2

end Journal

/-! ### Logged work -/

namespace Logged

open Journal

variable {α β : Type} {P Q : Event → Prop} {scope : Scope} {work : Logged α} {f : α → Logged β}

/-- Inside the scan the work adds events with the property only. -/
def Adds (scope : Scope) (P : Event → Prop) (work : Logged α) : Prop :=
  ∀ j : Journal, j.scope = some scope → Continues P j (work.run j).2

theorem adds_pure (a : α) : Adds scope P (pure a : Logged α) := fun j _ => .refl P j

theorem Adds.mono (h : Adds scope P work) (hPQ : ∀ e, P e → Q e) : Adds scope Q work :=
  fun j hj => (h j hj).mono hPQ

/-- A chain adds what its first step and its rest add. -/
theorem Adds.bind (h : Adds scope P work) (hf : ∀ a, Adds scope P (f a)) :
    Adds scope P (work >>= f) := by
  intro j hj
  have hfirst : Continues P j (work.run j).2 := h j hj
  exact hfirst.trans (hf _ _ (hfirst.scope_eq.trans hj))

theorem adds_emit {event : Event} {context : List (String × String)}
    (h : ∀ j : Journal, j.scope = some scope → P (j.entry event context)) :
    Adds scope P (Log.emit event context) :=
  fun j hj => continues_record (h j hj)

theorem adds_debug {message : String} {context : List (String × String)}
    (h : ∀ j : Journal, j.scope = some scope → P (j.entry (.debug message) context)) :
    Adds scope P (Log.debug message context) := by
  intro j hj
  change Continues P j (if _ then _ else _)
  split_ifs
  · exact continues_record (h j hj)
  · exact .refl P j

section Notes

variable {message : String} {context : List (String × String)}

/-- An event with plain values is a note. -/
theorem notes_emit {event : Event} (hevent : event.context = []) (hplain : IsPlain context) :
    Adds scope (·.IsNote scope) (Log.emit event context) :=
  adds_emit fun _ hj => isNote_entry hj hevent hplain

theorem notes_debug (hplain : IsPlain context) :
    Adds scope (·.IsNote scope) (Log.debug message context) :=
  adds_debug fun _ hj => isNote_entry hj rfl hplain

end Notes

end Logged

open Logged

/-! ### The stages of reading a source -/

section Compiling

variable {scope : Scope}

private theorem Lexer.notes_scanLogged (source : String) :
    Adds scope (·.IsNote scope) (Lexer.scanLogged source) := by
  rw [Lexer.scanLogged]
  rcases Lexer.scan source with ⟨metrics, outcome⟩
  dsimp only
  split
  · exact (notes_debug (by simp [IsPlain])).bind fun _ => adds_pure _
  · exact (notes_emit rfl (by simp [IsPlain])).bind fun _ => adds_pure _
  · exact (adds_pure ()).bind fun _ => adds_pure _

private theorem Parser.notes_parseLogged (ts : TokenStream) :
    Adds scope (·.IsNote scope) (Parser.parseLogged ts) := by
  rw [Parser.parseLogged]
  dsimp only
  split
  · exact (notes_debug (by simp [IsPlain])).bind fun _ => adds_pure _
  · exact (notes_emit rfl (by simp [IsPlain])).bind fun _ => adds_pure _

private theorem Validation.notes_checkLogged (rules : List RuleDecl) (declared : RuleNames)
    (reject : Bool) :
    Adds scope (·.IsNote scope) (Validation.checkLogged rules declared reject) := by
  rw [Validation.checkLogged]
  cases Validation.checkCount declared.size rules with
  | error e => exact adds_pure _
  | ok _ =>
    dsimp only
    cases Validation.checkRules reject declared rules with
    | error e => exact (notes_emit rfl (by simp [IsPlain])).bind fun _ => adds_pure _
    | ok _ => exact adds_pure _

namespace Compiler

private theorem notes_outcomeLogged (c : Compiler) (source : String) :
    Adds scope (·.IsNote scope) (c.outcomeLogged source) := by
  rw [outcomeLogged]
  refine (Lexer.notes_scanLogged source).bind ?_
  rintro ⟨metrics, _ | tokens⟩
  · exact adds_pure _
  refine (notes_debug (by simp [IsPlain])).bind fun _ => ?_
  refine (Parser.notes_parseLogged tokens).bind ?_
  rintro (_ | rules)
  · exact adds_pure _
  refine (Validation.notes_checkLogged rules _ _).bind ?_
  rintro (_ | _)
  · exact adds_pure _
  dsimp only
  cases c.set.pushAll c.preferences.programLimit rules <;> exact adds_pure _

theorem notes_addSource (c : Compiler) (source : String) :
    Adds scope (·.IsNote scope) (c.addSource source) := by
  rw [addSource]
  refine (notes_outcomeLogged c source).bind ?_
  rintro (e | result)
  · exact (notes_emit rfl (by simp [IsPlain])).bind fun _ => adds_pure _
  · exact adds_pure _

theorem notes_build (c : Compiler) : Adds scope (·.IsNote scope) c.build := by
  intro j hj
  rw [build]
  change Journal.Continues _ j ((if j.preferences.compilationSummary = true then _ else _ :
    Logged RuleSet).run j).2
  split_ifs
  · exact (notes_emit rfl (by simp [IsPlain])).bind (fun _ => adds_pure _) j hj
  · exact .refl _ j

end Compiler

/-- **Compiling leaves notes.** -/
theorem RuleSet.notes_compileLogged (preferences : CompilerPreferences) (source : String) :
    Adds scope (·.IsNote scope) (RuleSet.compileLogged preferences source) := by
  rw [RuleSet.compileLogged]
  refine (Compiler.notes_addSource _ source).bind ?_
  rintro ⟨_ | _, c⟩
  · exact adds_pure _
  · exact (Compiler.notes_build c).bind fun _ => adds_pure _

end Compiling

end PackageScan
