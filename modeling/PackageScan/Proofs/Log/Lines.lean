import PackageScan.Proofs.Log.Adding
import PackageScan.Proofs.Text.Digits

/-!
# Events on single lines

An event is written on a single line if its parts are (`Event.isSingleLine_render`): its code, its
message, and the keys and values of its context. No part is changed on the way, so an event with a
value that has a line break takes several lines, and what stands behind the break starts one of them
(`Event.isInfix_render`).
-/

namespace PackageScan

/-- The text has no line break. -/
def IsSingleLine (text : String) : Prop := ∀ c ∈ text.toList, c ≠ '\n' ∧ c ≠ '\r'

instance (text : String) : Decidable (IsSingleLine text) :=
  List.decidableBAll (fun c => c ≠ '\n' ∧ c ≠ '\r') text.toList

section Texts

variable {s t separator : String} {texts : List String}

theorem isSingleLine_append : IsSingleLine (s ++ t) ↔ IsSingleLine s ∧ IsSingleLine t := by
  rw [IsSingleLine, String.toList_append, List.forall_mem_append]
  rfl

/-- A part of a text on a single line is on a single line. -/
theorem IsSingleLine.of_isInfix (h : IsSingleLine t) (hpart : s.toList <:+: t.toList) :
    IsSingleLine s :=
  fun c hc => h c (hpart.subset hc)

theorem isSingleLine_toString (n : Nat) : IsSingleLine (toString n) := by
  intro c hc
  rw [show toString n = Nat.repr n from rfl, Decimal.toList_repr] at hc
  have hdigit := Decimal.isDigit_of_mem_toDigits hc
  constructor
  · rintro rfl
    exact Bool.false_ne_true hdigit
  · rintro rfl
    exact Bool.false_ne_true hdigit

private theorem isSingleLine_intercalate (hseparator : IsSingleLine separator)
    (h : ∀ text ∈ texts, IsSingleLine text) : IsSingleLine (separator.intercalate texts) := by
  induction texts with
  | nil => exact fun c hc => absurd hc List.not_mem_nil
  | cons first rest ih =>
    rw [List.forall_mem_cons] at h
    cases rest with
    | nil =>
      rw [String.intercalate_singleton]
      exact h.1
    | cons second rest =>
      rw [String.intercalate_cons_cons, isSingleLine_append, isSingleLine_append]
      exact ⟨⟨h.1, hseparator⟩, ih h.2⟩

/-- Joined texts stand in what they are joined to. -/
private theorem isInfix_intercalate (h : t ∈ texts) :
    t.toList <:+: (separator.intercalate texts).toList := by
  induction texts with
  | nil => exact absurd h List.not_mem_nil
  | cons first rest ih =>
    cases rest with
    | nil =>
      have halone : separator.intercalate [first] = t := by
        rw [List.mem_singleton.mp h, String.intercalate_singleton]
      exact halone ▸ List.infix_refl _
    | cons second rest =>
      rw [String.intercalate_cons_cons, String.toList_append, String.toList_append]
      rcases List.mem_cons.mp h with rfl | h
      · exact (List.infix_append' [] _ _).trans (List.infix_append' [] _ _)
      · exact (ih h).trans (List.suffix_append _ _).isInfix

end Texts

/-! ### Messages -/

namespace Message

theorem takeBytes_prefix (cs : List Char) (n : Nat) : takeBytes cs n <+: cs := by
  induction cs generalizing n with
  | nil => exact List.prefix_refl _
  | cons c cs ih =>
    rw [takeBytes]
    split_ifs
    · exact List.cons_prefix_cons.mpr ⟨rfl, ih _⟩
    · exact List.nil_prefix

theorem clamp_prefix (message : String) : (clamp message).toList <+: message.toList := by
  rw [clamp]
  split_ifs
  · exact List.prefix_refl _
  · rw [String.toList_ofList]
    exact takeBytes_prefix _ _

end Message

/-! ### Events -/

namespace Event

variable {e : Event} {key value : String}

/-- What is written of an event before its context. -/
def heading (e : Event) : String :=
  let place := match e.span with
    | some span => " at " ++ span.start.render
    | none => ""
  s!"[{e.level.label}] {e.code.text} - {e.message}{place}"

/-- The pairs of a context as they are written. -/
def pairs (e : Event) : List String := e.context.map fun (k, v) => k ++ "=" ++ v

private theorem render_of_eq_nil (h : e.context = []) : e.render = e.heading := by
  rw [render, h]
  exact String.append_empty

private theorem render_of_ne_nil (h : e.context ≠ []) :
    e.render = e.heading ++ (" (" ++ ", ".intercalate e.pairs ++ ")") := by
  rw [render, if_neg (by simpa using h)]
  rfl

private theorem isSingleLine_heading (hcode : IsSingleLine e.code.text)
    (hmessage : IsSingleLine e.message) : IsSingleLine e.heading := by
  have hlabel : IsSingleLine e.level.label := by cases e.level <;> decide
  rw [heading]
  simp only [isSingleLine_append]
  refine ⟨⟨⟨⟨⟨⟨by decide, hlabel⟩, by decide⟩, hcode⟩, by decide⟩, hmessage⟩, ?_⟩
  cases e.span with
  | none => decide
  | some span =>
    have hplace : IsSingleLine (" at " ++ (toString span.start.line ++ ":" ++
        toString span.start.column)) := by
      simp only [isSingleLine_append]
      exact ⟨by decide, ⟨isSingleLine_toString _, by decide⟩, isSingleLine_toString _⟩
    exact hplace

/-- **An event is written on a single line** if its parts are. -/
theorem isSingleLine_render (hcode : IsSingleLine e.code.text) (hmessage : IsSingleLine e.message)
    (hcontext : ∀ pair ∈ e.context, IsSingleLine pair.1 ∧ IsSingleLine pair.2) :
    IsSingleLine e.render := by
  have hheading := isSingleLine_heading hcode hmessage
  by_cases hempty : e.context = []
  · rw [render_of_eq_nil hempty]
    exact hheading
  · rw [render_of_ne_nil hempty, isSingleLine_append, isSingleLine_append, isSingleLine_append]
    refine ⟨hheading, ⟨by decide, isSingleLine_intercalate (by decide) ?_⟩, by decide⟩
    intro text htext
    obtain ⟨pair, hpair, rfl⟩ := List.mem_map.mp htext
    rw [isSingleLine_append, isSingleLine_append]
    exact ⟨⟨(hcontext pair hpair).1, by decide⟩, (hcontext pair hpair).2⟩

/-- A value of the context stands in the line as it is. -/
theorem isInfix_render (h : (key, value) ∈ e.context) : value.toList <:+: e.render.toList := by
  have hvalue : value.toList <:+: (key ++ "=" ++ value).toList := by
    rw [String.toList_append]
    exact (List.suffix_append _ _).isInfix
  have hpair : (key ++ "=" ++ value).toList <:+: (", ".intercalate e.pairs).toList :=
    isInfix_intercalate (List.mem_map_of_mem (f := fun (k, v) => k ++ "=" ++ v) h)
  rw [render_of_ne_nil (List.ne_nil_of_mem h), String.toList_append, String.toList_append,
    String.toList_append]
  exact ((hvalue.trans hpair).trans (List.infix_append _ _ _)).trans
    (List.suffix_append _ _).isInfix

end Event

/-! ### Events in a journal -/

namespace Journal

variable {j : Journal} {event : Event} {context : List (String × String)}

/-- The scan in progress, if there is one, is named by texts on single lines. -/
def HasPlainScope (j : Journal) : Prop :=
  ∀ scope, j.scope = some scope → IsSingleLine scope.scanner ∧ IsSingleLine scope.target

/-- What a scan in progress with a plain name adds to an event is on a single line. -/
private theorem HasPlainScope.isSingleLine (h : j.HasPlainScope) :
    ∀ pair ∈ j.scopeContext, IsSingleLine pair.1 ∧ IsSingleLine pair.2 := by
  rw [scopeContext]
  cases hscope : j.scope with
  | none => exact fun _ hpair => absurd hpair List.not_mem_nil
  | some scope =>
    obtain ⟨hscanner, htarget⟩ := h scope hscope
    have hkeys : IsSingleLine "scanner" ∧ IsSingleLine "target" := by decide
    exact List.forall_mem_cons.mpr
      ⟨⟨hkeys.1, hscanner⟩, List.forall_mem_singleton.mpr ⟨hkeys.2, htarget⟩⟩

theorem isSingleLine_entry (hscope : j.HasPlainScope) (hevent : event.context = [])
    (hcode : IsSingleLine event.code.text) (hmessage : IsSingleLine event.message)
    (hcontext : ∀ pair ∈ context, IsSingleLine pair.1 ∧ IsSingleLine pair.2) :
    IsSingleLine (j.entry event context).render := by
  refine Event.isSingleLine_render hcode
    (hmessage.of_isInfix (Message.clamp_prefix _).isInfix) fun pair hpair => ?_
  rcases Dictionary.mem_of_mem_insertAll hpair with hpair | hpair
  · rw [hevent] at hpair
    exact absurd hpair List.not_mem_nil
  · exact (List.mem_append.mp hpair).elim (hscope.isSingleLine pair) (hcontext pair)

/-- The last value of a key stands in the line as it is. -/
theorem isInfix_entry {key value : String} (hevent : event.context = [])
    (h : context.reverse.lookup key = some value) :
    value.toList <:+: (j.entry event context).render.toList := by
  have hfound : (j.entry event context).context.find? key = some value := by
    rw [find?_entry hevent, h]
    rfl
  exact Event.isInfix_render (Dictionary.mem_of_find? hfound)

end Journal

end PackageScan
