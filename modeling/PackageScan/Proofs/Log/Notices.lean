import PackageScan.Proofs.Log.Lines
import PackageScan.Proofs.Log.Yielding

/-!
# What logged work logs

Work logs certain notices, the same ones whatever has been logged before (`Logged.Logs`); which of
them are recorded, and inside which scan, is up to the journal (`Logged.Logs.events_eq`). A chain
logs what its steps log one after another, provided that what its first step yields is known.

A notice may quote a name in one of its values. Work *tells* some names (`Logged.Tells`) if its
notices quote each of them and could not take several lines but for them. Then what is written of it
is on single lines, except for events that have a name in them which is not (`Logged.Tells.events`).
-/

namespace PackageScan

/-- Something to be logged: an event and the named values that are logged with it. -/
structure Notice where
  /-- The event. -/
  event : Event
  /-- The named values. -/
  context : List (String × String)

namespace Notice

/-- Nothing in the notice has a line break. -/
structure IsPlain (n : Notice) : Prop where
  /-- The event has no named values of its own. -/
  context_eq : n.event.context = []
  /-- Its code is on a single line. -/
  code : IsSingleLine n.event.code.text
  /-- Its message is on a single line. -/
  message : IsSingleLine n.event.message
  /-- So are the named values. -/
  values : ∀ pair ∈ n.context, IsSingleLine pair.1 ∧ IsSingleLine pair.2

theorem isPlain_mk {event : Event} {context : List (String × String)} (hevent : event.context = [])
    (hcode : IsSingleLine event.code.text) (hmessage : IsSingleLine event.message)
    (hvalues : ∀ pair ∈ context, IsSingleLine pair.1 ∧ IsSingleLine pair.2) :
    IsPlain ⟨event, context⟩ :=
  ⟨hevent, hcode, hmessage, hvalues⟩

theorem isSingleLine_nil :
    ∀ pair ∈ ([] : List (String × String)), IsSingleLine pair.1 ∧ IsSingleLine pair.2 :=
  fun _ h => absurd h List.not_mem_nil

theorem isSingleLine_cons {key value : String} {context : List (String × String)}
    (hkey : IsSingleLine key) (hvalue : IsSingleLine value)
    (h : ∀ pair ∈ context, IsSingleLine pair.1 ∧ IsSingleLine pair.2) :
    ∀ pair ∈ (key, value) :: context, IsSingleLine pair.1 ∧ IsSingleLine pair.2 :=
  List.forall_mem_cons.mpr ⟨⟨hkey, hvalue⟩, h⟩

/-- The notice is a warning or an error and tells the name in one of its values. -/
structure Quotes (n : Notice) (name : String) : Prop where
  /-- The event has no named values of its own. -/
  context_eq : n.event.context = []
  /-- It is a warning or an error. -/
  rank_le : n.event.level.rank ≤ Level.warning.rank
  /-- The name stands in a value. -/
  exists_value : ∃ key value, n.context.reverse.lookup key = some value ∧
    name.toList <:+: value.toList

end Notice

namespace Journal

variable {j : Journal} {n : Notice} {name : String}

/-- Is the notice recorded? For a debug event, the preferences have to ask for it as well. -/
def admits (j : Journal) (n : Notice) : Bool :=
  n.event.level.passes j.least &&
    (n.event.level ≠ .debug || Level.passes .debug j.preferences.least)

/-- The journal after a notice. -/
def note (j : Journal) (n : Notice) : Journal :=
  if j.admits n then { j with recorded := j.entry n.event n.context :: j.recorded } else j

private theorem emit_eq_note {event : Event} {context : List (String × String)}
    (h : event.level ≠ .debug ∨ Level.passes .debug j.preferences.least = true) :
    j.emit event context = j.note ⟨event, context⟩ := by
  have hasked : (decide (event.level ≠ .debug) || Level.passes .debug j.preferences.least) =
      true := Bool.or_eq_true_iff.mpr (h.imp_left fun h => decide_eq_true h)
  rw [note, admits, hasked, Bool.and_true]
  rfl

/-- Only the record of a journal changes. -/
private theorem note_eq (j : Journal) (n : Notice) :
    ∃ recorded, j.note n = { j with recorded } := by
  rw [note]
  split_ifs
  · exact ⟨_, rfl⟩
  · exact ⟨_, rfl⟩

/-- Of some notices those are recorded that are admitted. -/
private theorem events_foldl_note (j : Journal) (notices : List Notice) :
    (notices.foldl note j).events =
      j.events ++ (notices.filter j.admits).map fun n => j.entry n.event n.context := by
  induction notices generalizing j with
  | nil => exact (List.append_nil _).symm
  | cons n rest ih =>
    obtain ⟨recorded, hnote⟩ := note_eq j n
    have hrest : (rest.foldl note (j.note n)).events = (j.note n).events ++
        (rest.filter j.admits).map fun n => j.entry n.event n.context := by
      rw [ih, hnote]
      rfl
    rw [List.foldl_cons, hrest, note]
    cases hadmits : j.admits n with
    | true =>
      rw [if_pos rfl, List.filter_cons_of_pos hadmits, List.map_cons, List.append_cons]
      exact congrArg (· ++ _) List.reverse_cons
    | false =>
      rw [if_neg Bool.false_ne_true, List.filter_cons_of_neg (by rw [hadmits]; simp)]

/-- A plain notice is written on a single line. -/
private theorem isSingleLine_of_isPlain (hscope : j.HasPlainScope) (h : n.IsPlain) :
    IsSingleLine (j.entry n.event n.context).render :=
  isSingleLine_entry hscope h.context_eq h.code h.message h.values

/-- What a notice quotes stands in the line as it is. -/
private theorem isInfix_of_quotes (h : n.Quotes name) :
    name.toList <:+: (j.entry n.event n.context).render.toList := by
  obtain ⟨key, value, hvalue, hname⟩ := h.exists_value
  exact hname.trans (isInfix_entry h.context_eq hvalue)

/-- Warnings and errors are recorded if warnings are. -/
private theorem admits_of_quotes (hleast : Level.warning.passes j.least = true)
    (h : n.Quotes name) :
    j.admits n = true := by
  have hrank := h.rank_le
  rw [Level.passes, decide_eq_true_iff] at hleast
  rw [admits, Bool.and_eq_true]
  refine ⟨decide_eq_true (hrank.trans hleast), Bool.or_eq_true_iff.mpr (.inl ?_)⟩
  refine decide_eq_true fun hdebug => ?_
  rw [hdebug] at hrank
  exact absurd hrank (by decide)

end Journal

namespace Logged

variable {α β : Type} {work : Logged α} {f : α → Logged β} {notices more : List Notice}

/-- From every journal the work logs the notices. -/
def Logs (work : Logged α) (notices : List Notice) : Prop :=
  ∀ j : Journal, (work.run j).2 = notices.foldl Journal.note j

private theorem logs_pure (a : α) : Logs (pure a : Logged α) [] := fun _ => rfl

/-- A chain logs what its first step logs and then what its rest logs on the value of that step. -/
theorem Logs.bind {a : α} (h : Logs work notices) (ha : Yields work a) (hf : Logs (f a) more) :
    Logs (work >>= f) (notices ++ more) := by
  intro j
  have hrest : ((f (work.run j).1).run (work.run j).2).2 =
      more.foldl Journal.note (notices.foldl Journal.note j) := by
    rw [ha j, h j]
    exact hf _
  rw [List.foldl_append]
  exact hrest

theorem logs_emit {event : Event} {context : List (String × String)} (h : event.level ≠ .debug) :
    Logs (Log.emit event context) [⟨event, context⟩] :=
  fun _ => Journal.emit_eq_note (.inl h)

theorem logs_debug (message : String) (context : List (String × String)) :
    Logs (Log.debug message context) [⟨.debug message, context⟩] := by
  intro j
  change (if _ then _ else _) = j.note _
  cases hasked : Level.passes .debug j.preferences.least with
  | true =>
    rw [if_pos rfl]
    exact Journal.emit_eq_note (.inr hasked)
  | false =>
    have hadmits : j.admits ⟨.debug message, context⟩ = false := by
      rw [Journal.admits, hasked]
      exact Bool.and_false _
    rw [if_neg Bool.false_ne_true, Journal.note, hadmits, if_neg Bool.false_ne_true]

/-- **What is recorded.** The admitted notices, in order, each inside the scan in progress. -/
theorem Logs.events_eq (h : Logs work notices) (j : Journal) :
    (work.run j).2.events =
      j.events ++ (notices.filter j.admits).map fun n => j.entry n.event n.context := by
  rw [h j, Journal.events_foldl_note]

end Logged

/-! ### Names that are told -/

/-- The notices tell the names, and nothing else in them can have a line break. -/
structure Notice.Tell (names : List String) (notices : List Notice) : Prop where
  /-- Each name is quoted. -/
  quotes : ∀ name ∈ names, ∃ n ∈ notices, n.Quotes name
  /-- A notice is plain, or would be if it were not for a name that it quotes. -/
  plain : ∀ n ∈ notices, n.IsPlain ∨ ∃ name ∈ names, n.Quotes name ∧ (IsSingleLine name → n.IsPlain)

namespace Notice

variable {names names' : List String} {notices notices' : List Notice} {n : Notice} {name : String}

private theorem tell_nil : Tell [] [] where
  quotes := fun _ h => absurd h List.not_mem_nil
  plain := fun _ h => absurd h List.not_mem_nil

theorem tell_plain (h : n.IsPlain) : Tell [] [n] where
  quotes := fun _ h => absurd h List.not_mem_nil
  plain := List.forall_mem_singleton.mpr (.inl h)

theorem tell_name (h : n.Quotes name) (hplain : IsSingleLine name → n.IsPlain) :
    Tell [name] [n] where
  quotes := List.forall_mem_singleton.mpr ⟨n, List.mem_singleton_self n, h⟩
  plain := List.forall_mem_singleton.mpr (.inr ⟨name, List.mem_singleton_self name, h, hplain⟩)

theorem Tell.append (h : Tell names notices) (h' : Tell names' notices') :
    Tell (names ++ names') (notices ++ notices') where
  quotes := by
    refine List.forall_mem_append.mpr ⟨fun name hname => ?_, fun name hname => ?_⟩
    · obtain ⟨n, hn, hquotes⟩ := h.quotes name hname
      exact ⟨n, List.mem_append_left _ hn, hquotes⟩
    · obtain ⟨n, hn, hquotes⟩ := h'.quotes name hname
      exact ⟨n, List.mem_append_right _ hn, hquotes⟩
  plain := by
    refine List.forall_mem_append.mpr ⟨fun n hn => ?_, fun n hn => ?_⟩
    · refine (h.plain n hn).imp_right ?_
      rintro ⟨name, hname, hquotes⟩
      exact ⟨name, List.mem_append_left _ hname, hquotes⟩
    · refine (h'.plain n hn).imp_right ?_
      rintro ⟨name, hname, hquotes⟩
      exact ⟨name, List.mem_append_right _ hname, hquotes⟩

end Notice

namespace Logged

variable {α β : Type} {work : Logged α} {f : α → Logged β} {names names' : List String}

/-- The work logs notices that tell the names. -/
def Tells (work : Logged α) (names : List String) : Prop :=
  ∃ notices, Logs work notices ∧ Notice.Tell names notices

theorem tells_pure (a : α) : Tells (pure a : Logged α) [] := ⟨[], logs_pure a, Notice.tell_nil⟩

theorem Tells.bind {a : α} (h : Tells work names) (ha : Yields work a) (hf : Tells (f a) names') :
    Tells (work >>= f) (names ++ names') := by
  obtain ⟨notices, hlogs, htell⟩ := h
  obtain ⟨notices', hlogs', htell'⟩ := hf
  exact ⟨notices ++ notices', hlogs.bind ha hlogs', htell.append htell'⟩

/-- A chain of which only the first step has names to tell. -/
theorem Tells.bind_nil {a : α} (h : Tells work names) (ha : Yields work a)
    (hf : Tells (f a) []) : Tells (work >>= f) names := by
  rw [← List.append_nil names]
  exact h.bind ha hf

/-- A chain whose first step only logs. -/
theorem Tells.before {log : Logged Unit} {rest : Unit → Logged β} (h : Tells log names)
    (hrest : Tells (rest ()) names') : Tells (log >>= rest) (names ++ names') :=
  h.bind (fun _ => rfl) hrest

/-- **What is written of it.** Every event that is recorded is on a single line unless it has one of
the names in it that is not, and each name stands in an event if warnings are recorded. -/
theorem Tells.events (h : Tells work names) {j : Journal} (hscope : j.HasPlainScope) :
    ∃ added, (work.run j).2.events = j.events ++ added ∧
      (∀ e ∈ added, IsSingleLine e.render ∨
        ∃ name ∈ names, ¬ IsSingleLine name ∧ name.toList <:+: e.render.toList) ∧
      (Level.warning.passes j.least = true →
        ∀ name ∈ names, ∃ e ∈ added, name.toList <:+: e.render.toList) := by
  obtain ⟨notices, hlogs, htell⟩ := h
  refine ⟨_, hlogs.events_eq j, fun e he => ?_, fun hleast name hname => ?_⟩
  · obtain ⟨n, hn, rfl⟩ := List.mem_map.mp he
    rcases htell.plain n (List.mem_of_mem_filter hn) with hplain | ⟨name, hname, hquotes, hplain⟩
    · exact .inl (Journal.isSingleLine_of_isPlain hscope hplain)
    · by_cases hline : IsSingleLine name
      · exact .inl (Journal.isSingleLine_of_isPlain hscope (hplain hline))
      · exact .inr ⟨name, hname, hline, Journal.isInfix_of_quotes hquotes⟩
  · obtain ⟨n, hn, hquotes⟩ := htell.quotes name hname
    have hadmitted := List.mem_filter.mpr ⟨hn, Journal.admits_of_quotes hleast hquotes⟩
    exact ⟨_, List.mem_map_of_mem hadmitted, Journal.isInfix_of_quotes hquotes⟩

end Logged

end PackageScan
