import PackageScan.CommandLine.Help
import PackageScan.Proofs.Log.Yielding

/-!
# The work of a command

What a command finds out does not depend on what has been written: logged work in a session answers
with what it yields to any log. What a command writes to the standard output are lines of its own
with events in between; which of the events are written, and where, is up to the console.
`Session.Does` says both of a piece of work, and chains of steps are put together from it.
-/

namespace PackageScan

namespace CommandLine

/-! ### The standard output -/

/-- The line is an event. -/
def IsEventLine (line : String) : Prop :=
  ∃ event : Event, line = event.render ∨ line = event.renderJson

/-- The lines are the printed ones, with events in between. -/
inductive Shows : List String → List String → Prop where
  | nil : Shows [] []
  /-- One more line is printed. -/
  | print {printed lines : List String} (line : String) (h : Shows printed lines) :
      Shows (printed ++ [line]) (lines ++ [line])
  /-- One more event is written. -/
  | event {printed lines : List String} {line : String} (hline : IsEventLine line)
      (h : Shows printed lines) : Shows printed (lines ++ [line])

/-- The lines of the standard output in the order in which they were written. -/
def Console.lines (c : Console) : List String := c.out.reverse

namespace Session

variable {α β : Type} {work : Session α} {f : α → Session β} {a : α} {b : β}
variable {printed more : List String}

/-- On every console the work answers with the value. It prints the lines and writes nothing else to
the standard output but events. -/
def Does (work : Session α) (a : α) (printed : List String) : Prop :=
  ∀ c : Console, (work.run c).1 = a ∧
    ∀ before, Shows before c.lines → Shows (before ++ printed) (work.run c).2.lines

/-- A chain does what its first step does and then what its rest does on the answer of that step. -/
theorem Does.bind (h : Does work a printed) (hf : Does (f a) b more) :
    Does (work >>= f) b (printed ++ more) := by
  intro c
  obtain ⟨rfl, hprinted⟩ := h c
  obtain ⟨hb, hmore⟩ := hf (work.run c).2
  refine ⟨hb, fun before hbefore => ?_⟩
  rw [← List.append_assoc]
  exact hmore _ (hprinted before hbefore)

/-- A chain whose first step prints nothing. -/
theorem Does.next (h : Does work a []) (hf : Does (f a) b more) : Does (work >>= f) b more :=
  h.bind hf

end Session

end CommandLine

end PackageScan
