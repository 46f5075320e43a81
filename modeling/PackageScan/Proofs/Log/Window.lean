import Mathlib.Data.List.DropRight
import PackageScan.Log.Buffer

/-!
# The buffer is a sliding window

Room is made in a buffer before an event is put in, and just as much as is needed: whatever a buffer
holds, after an event it holds the last ones of what it held and the event (`Buffer.toList_push`).
So nothing has to be known about the number of events before.

What a buffer behind a filter holds is told by the steps that have been taken alone
(`Service.buffer_run`). `Service.logged` are the events since the buffer was cleared last that have
passed the filter or have gone around it; the buffer holds the last ones of them.
-/

namespace PackageScan

namespace Buffer

/-- The last events of a list, as many as a buffer has room for. -/
def window (events : List Event) : List Event := events.rtake Limits.logBuffer

private theorem window_nil : window [] = [] := List.rtake_nil _

/-- As many are kept as there are and as there is room for. -/
private theorem length_window (events : List Event) :
    (window events).length = min events.length Limits.logBuffer := by
  rw [window, List.rtake, List.length_drop]
  omega

/-- The window on a longer list ends with the last event, and shows one of the others less. -/
private theorem window_concat (events : List Event) (event : Event) :
    window (events ++ [event]) = events.rtake (Limits.logBuffer - 1) ++ [event] := by
  have hroom : Limits.logBuffer = Limits.logBuffer - 1 + 1 := by decide
  rw [window, hroom, List.rtake_concat_succ, Nat.add_sub_cancel]

/-- Of the events before the last one, those count that were in the window before. -/
private theorem window_window_concat (events : List Event) (event : Event) :
    window (window events ++ [event]) = window (events ++ [event]) := by
  have hle : Limits.logBuffer - 1 ≤ Limits.logBuffer := Nat.sub_le ..
  rw [window_concat, window_concat, window, List.rtake_eq_reverse_take_reverse,
    List.rtake_eq_reverse_take_reverse, List.rtake_eq_reverse_take_reverse, List.reverse_reverse,
    List.take_take, Nat.min_eq_left hle]

/-- **A step.** Whatever the buffer holds, it holds the last of that and of the event afterwards. -/
theorem toList_push (b : Buffer) (event : Event) :
    (b.push event).toList = window (b.toList ++ [event]) := by
  have hsize : b.toList.length = b.events.size := Array.length_toList
  have hroom : 0 < Limits.logBuffer := by decide
  rw [window, List.rtake, List.length_append, hsize, List.length_singleton, push]
  split_ifs with hfull
  · have hdrop : b.events.size + 1 - Limits.logBuffer =
        b.events.size - Limits.logBuffer + 1 := Nat.sub_add_comm hfull
    rw [hdrop, List.drop_append_of_le_length (by rw [hsize]; omega), toList, Array.toList_push,
      Array.toList_extract, List.extract_eq_take_drop, toList, List.take_of_length_le]
    rw [List.length_drop, Array.length_toList]
  · have hdrop : b.events.size + 1 - Limits.logBuffer = 0 := by omega
    rw [hdrop, List.drop_zero, toList, Array.toList_push, toList]

/-- Every count of a summary is one of the events that are held. -/
private theorem summary_eq (b : Buffer) :
    b.summary =
      { total := b.toList.length
        errors := (b.toList.filter (·.level = .error)).length
        warnings := (b.toList.filter (·.level = .warning)).length
        infos := (b.toList.filter (·.level = .info)).length } := by
  rw [summary, List.countP_eq_length_filter, List.countP_eq_length_filter,
    List.countP_eq_length_filter]
  rfl

end Buffer

namespace Service

/-- What may be done with a buffer behind a filter. -/
inductive Step where
  /-- An event is sent through the filter. -/
  | log (event : Event)
  /-- An event is sent to the buffer itself. -/
  | logDirectly (event : Event)
  /-- The buffer is cleared. -/
  | clear
  deriving DecidableEq, Repr

/-- Takes a step. -/
def take (s : Service) : Step → Service
  | .log event => s.log event
  | .logDirectly event => s.logDirectly event
  | .clear => s.clear

/-- Takes one step after another. -/
def run (s : Service) (steps : List Step) : Service := steps.foldl take s

/-- The event that a step sends to the buffer; one beyond the least pressing level is held back
unless it goes around the filter. -/
def Step.event? (least : Level) : Step → Option Event
  | log event => if event.level.rank ≤ least.rank then some event else none
  | logDirectly event => some event
  | clear => none

/-- The events that have got to the buffer since it was cleared last. -/
def logged (least : Level) (steps : List Step) : List Event :=
  (steps.rtakeWhile (· ≠ .clear)).filterMap (Step.event? least)

variable {s : Service} {steps : List Step}

private theorem least_take (s : Service) (step : Step) : (s.take step).least = s.least := by
  cases step with
  | log event =>
    rw [take, log]
    split_ifs <;> rfl
  | logDirectly event => rfl
  | clear => rfl

private theorem logged_concat_clear (least : Level) (steps : List Step) :
    logged least (steps ++ [.clear]) = [] := by
  rw [logged, List.rtakeWhile_concat_neg _ _ _ (by simp)]
  rfl

private theorem logged_concat {step : Step} (h : step ≠ .clear) (least : Level)
    (steps : List Step) :
    logged least (steps ++ [step]) = logged least steps ++ (step.event? least).toList := by
  rw [logged, List.rtakeWhile_concat_pos _ _ _ (by simpa using h), List.filterMap_append, logged,
    List.filterMap_cons]
  cases step.event? least <;> rfl

/-- What a buffer behind a filter holds after some steps: the last events that got there. -/
structure Shows (s : Service) (least : Level) (steps : List Step) : Prop where
  /-- The filter is as it was. -/
  least_eq : s.least = least
  /-- The buffer is a window on the events. -/
  toList_eq : s.buffer.toList = Buffer.window (logged least steps)

/-- An event that gets to the buffer moves the window on. -/
theorem Shows.toList_push {least : Level} (h : s.Shows least steps) (event : Event) :
    (s.buffer.push event).toList = Buffer.window (logged least steps ++ [event]) := by
  rw [Buffer.toList_push, h.toList_eq, Buffer.window_window_concat]

/-- **A step** of any kind. -/
theorem Shows.take {least : Level} (h : s.Shows least steps) (step : Step) :
    (s.take step).Shows least (steps ++ [step]) := by
  refine ⟨(least_take s step).trans h.least_eq, ?_⟩
  cases step with
  | log event =>
    rw [logged_concat (by simp), Step.event?, Service.take, log]
    by_cases hpasses : event.level.rank ≤ least.rank
    · have hlog : s.shouldLog event.level = true := by
        rw [shouldLog, h.least_eq]
        exact decide_eq_true hpasses
      rw [if_pos hlog, if_pos hpasses]
      exact h.toList_push event
    · have hlog : ¬ s.shouldLog event.level = true := by
        rw [shouldLog, h.least_eq, Level.passes, decide_eq_true_iff]
        exact hpasses
      rw [if_neg hlog, if_neg hpasses, Option.toList_none, List.append_nil]
      exact h.toList_eq
  | logDirectly event =>
    rw [logged_concat (by simp)]
    exact h.toList_push event
  | clear =>
    rw [logged_concat_clear, Buffer.window_nil]
    rfl

/-- **A run.** -/
theorem shows_run (least : Level) (steps : List Step) :
    (({ least } : Service).run steps).Shows least steps := by
  induction steps using List.reverseRecOn with
  | nil => exact ⟨rfl, Buffer.window_nil.symm⟩
  | append_singleton steps step ih =>
    rw [run, List.foldl_concat]
    exact ih.take step

/-- **The buffer is a sliding window.** After any steps it holds, in order, the last events that
have got to it since it was cleared: all of them while there is room, and as many as there is room
for afterwards. The summary counts the events that are held, by their levels. -/
theorem buffer_run (least : Level) (steps : List Step) :
    let b := (({ least } : Service).run steps).buffer
    let events := logged least steps
    let size := min events.length Limits.logBuffer
    (b.toList.length = size ∧ b.toList <:+ events) ∧
      b.summary =
        { total := size
          errors := (b.toList.filter (·.level = .error)).length
          warnings := (b.toList.filter (·.level = .warning)).length
          infos := (b.toList.filter (·.level = .info)).length } := by
  intro b events size
  have hevents : b.toList = Buffer.window events := (shows_run least steps).toList_eq
  have hsize : b.toList.length = size := by rw [hevents, Buffer.length_window]
  refine ⟨⟨hsize, ?_⟩, ?_⟩
  · rw [hevents]
    exact List.drop_suffix _ _
  · rw [Buffer.summary_eq, hsize]

end Service

end PackageScan
