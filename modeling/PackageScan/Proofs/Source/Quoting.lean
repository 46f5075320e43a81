import PackageScan.Proofs.Source.Places

/-!
# Quoting a line by its offsets

A diagnostic quotes a line of a text. Looked up by bytes, this takes a table of the offsets at
which lines begin (`Source.lineStarts`) and the slice between two of them, and each step may go
wrong: a difference may be below zero, and the end of a slice may lie within a character or after
the text. `Diagnostic.render?` computes a diagnostic in this way and gives up at the first step
that goes wrong.

None does, for any text. The table has an offset for each line that there is, and two neighbours
are the ends of a stretch of the text with the line break after it (`Source.exists_of_lineFrom?`),
so that every lookup comes out as the one that counts line breaks (`Source.lineByOffset?_eq`). What
is left is the column of the span, which has to be at least one (`Diagnostic.render?_eq`).
-/

namespace PackageScan

namespace Source

/-! ### Steps that may go wrong -/

/-- A difference that is not below zero. -/
def sub? (a b : Nat) : Option Nat := if b ≤ a then some (a - b) else none

/-- The first bytes of a text and the rest of it, unless the bytes end within a character or there
are not so many. -/
def splitBytes? : Nat → List Char → Option (List Char × List Char)
  | 0, cs => some ([], cs)
  | _ + 1, [] => none
  | n + 1, c :: cs => do
    let left ← sub? (n + 1) c.utf8Size
    let (head, tail) ← splitBytes? left cs
    some (c :: head, tail)

/-- The slice of a text between two offsets. -/
def slice? (source : List Char) (start stop : Nat) : Option (List Char) := do
  let size ← sub? stop start
  let (_, tail) ← splitBytes? start source
  let (slice, _) ← splitBytes? size tail
  some slice

/-- The offsets right after the line breaks of a text that begins at the given offset. -/
def breaksFrom : Nat → List Char → List Nat
  | _, [] => []
  | offset, c :: cs =>
    if c = '\n' then (offset + 1) :: breaksFrom (offset + c.utf8Size) cs
    else breaksFrom (offset + c.utf8Size) cs

/-- The offsets at which the lines of a text begin. -/
def lineStarts (source : List Char) : List Nat := 0 :: breaksFrom 0 source

/-- Looks a line up by its number, counted from one. The outer option is empty if a step goes
wrong, the inner one if there is no such line. -/
def lineByOffset? (source : List Char) (number : Nat) : Option (Option (List Char)) :=
  if number = 0 then some none
  else do
    let index ← sub? number 1
    match (lineStarts source)[index]? with
    | none => some none
    | some start =>
      let stop ← match (lineStarts source)[index + 1]? with
        | some next => sub? next 1
        | none => some (byteLength source)
      let line ← slice? source start stop
      some (some (trimReturns line))

/-! ### Slices at characters -/

private theorem sub?_add (a b : Nat) : sub? (a + b) a = some b := by
  rw [sub?, if_pos (Nat.le_add_right a b), Nat.add_sub_cancel_left]

/-- The bytes of a text that is followed by another one end between two characters. -/
private theorem splitBytes?_append (cs ds : List Char) :
    splitBytes? (byteLength cs) (cs ++ ds) = some (cs, ds) := by
  induction cs with
  | nil =>
    rw [byteLength_nil, splitBytes?.eq_def]
    rfl
  | cons c cs ih =>
    have hc : 0 < c.utf8Size := c.utf8Size_pos
    obtain ⟨n, hn⟩ : ∃ n, c.utf8Size + byteLength cs = n + 1 :=
      Nat.exists_eq_succ_of_ne_zero (by omega)
    have hleft : sub? (n + 1) c.utf8Size = some (byteLength cs) := by
      rw [← hn]
      exact sub?_add _ _
    rw [byteLength_cons, hn, List.cons_append, splitBytes?, hleft, Option.bind_eq_bind,
      Option.bind_some, ih]
    rfl

/-- The slice between two ends of characters is what stands between them. -/
private theorem slice?_append (before line rest : List Char) :
    slice? (before ++ (line ++ rest)) (byteLength before) (byteLength before + byteLength line) =
      some line := by
  simp only [slice?, sub?_add, splitBytes?_append, Option.bind_eq_bind, Option.bind_some]

/-- The text that a span covers. -/
def textOf (source : List Char) (span : Span) : List Char :=
  (slice? source span.start.offset span.stop.offset).getD []

theorem textOf_covering (before stretch rest : List Char) :
    textOf (before ++ (stretch ++ rest)) (.covering before stretch) = stretch := by
  have hstop : (Span.covering before stretch).stop.offset =
      byteLength before + byteLength stretch := byteLength_append before stretch
  rw [textOf, hstop]
  exact congrArg (Option.getD · []) (slice?_append before stretch rest)

/-! ### The table of lines -/

/-- What has no line break adds nothing to the table. -/
private theorem breaksFrom_append {cs : List Char} (h : '\n' ∉ cs) (offset : Nat) (ds : List Char) :
    breaksFrom offset (cs ++ ds) = breaksFrom (offset + byteLength cs) ds := by
  induction cs generalizing offset with
  | nil => rw [List.nil_append, byteLength_nil, Nat.add_zero]
  | cons c cs ih =>
    rw [List.mem_cons, not_or] at h
    have hc : c ≠ '\n' := fun he => h.1 he.symm
    rw [List.cons_append, breaksFrom, if_neg hc, ih h.2, byteLength_cons, Nat.add_assoc]

/-- The first line ends where the second entry of the table says, if there is one. -/
private theorem exists_firstLine (offset : Nat) (cs : List Char) :
    ∃ rest, cs = firstLine cs ++ rest ∧
      (rest = [] ∧ breaksFrom offset cs = [] ∨
        ∃ more, breaksFrom offset cs = (offset + byteLength (firstLine cs) + 1) :: more) := by
  have hsplit : firstLine cs ++ cs.dropWhile (· ≠ '\n') = cs := List.takeWhile_append_dropWhile
  have hline : '\n' ∉ firstLine cs := fun hmem => by
    simpa using List.mem_takeWhile_imp hmem
  have hbreaks := breaksFrom_append hline offset (cs.dropWhile (· ≠ '\n'))
  rw [hsplit] at hbreaks
  refine ⟨cs.dropWhile (· ≠ '\n'), hsplit.symm, ?_⟩
  cases hrest : cs.dropWhile (· ≠ '\n') with
  | nil =>
    rw [hrest] at hbreaks
    exact Or.inl ⟨rfl, hbreaks⟩
  | cons c rest =>
    have hc : c = '\n' := by
      have hne : cs.dropWhile (· ≠ '\n') ≠ [] := by
        rw [hrest]
        exact List.cons_ne_nil c rest
      have hhead := List.head_dropWhile_not (· ≠ '\n') hne
      simp only [hrest, List.head_cons] at hhead
      simpa using hhead
    rw [hrest, hc, breaksFrom, if_pos rfl] at hbreaks
    exact Or.inr ⟨_, hbreaks⟩

/-- **Neighbours in the table.** A line that is there is the stretch from its entry in the table up
to the line break before the next entry, or up to the end if there is none. -/
theorem exists_of_lineFrom? {n : Nat} {cs line : List Char} (h : lineFrom? n cs = some line)
    (offset : Nat) :
    ∃ before rest, cs = before ++ (line ++ rest) ∧
      (offset :: breaksFrom offset cs)[n]? = some (offset + byteLength before) ∧
      ((offset :: breaksFrom offset cs)[n + 1]? = none ∧ rest = [] ∨
        (offset :: breaksFrom offset cs)[n + 1]? =
          some (offset + byteLength before + byteLength line + 1)) := by
  -- line by line, as the lookup goes; a line break that is passed takes one entry away
  fun_induction lineFrom? n cs generalizing offset with
  | case1 cs =>
    cases h
    obtain ⟨rest, hsplit, hnext⟩ := exists_firstLine offset cs
    refine ⟨[], rest, hsplit, by simp, ?_⟩
    rcases hnext with ⟨hrest, hbreaks⟩ | ⟨more, hbreaks⟩
    · exact Or.inl ⟨by rw [hbreaks]; rfl, hrest⟩
    · refine Or.inr ?_
      rw [hbreaks, byteLength_nil, Nat.add_zero]
      rfl
  | case2 => exact nomatch h
  | case3 n cs ih =>
    obtain ⟨before, rest, rfl, hstart, hstop⟩ := ih h (offset + 1)
    have hsize : ('\n' : Char).utf8Size = 1 := by decide
    refine ⟨'\n' :: before, rest, rfl, ?_⟩
    rw [breaksFrom, if_pos rfl, hsize, List.getElem?_cons_succ, List.getElem?_cons_succ,
      byteLength_cons, hsize, ← Nat.add_assoc]
    exact ⟨hstart, hstop⟩
  | case4 n c cs hc ih =>
    obtain ⟨before, rest, rfl, hstart, hstop⟩ := ih h (offset + c.utf8Size)
    refine ⟨c :: before, rest, rfl, ?_⟩
    rw [breaksFrom, if_neg hc, List.getElem?_cons_succ, List.getElem?_cons_succ, byteLength_cons,
      ← Nat.add_assoc]
    exact ⟨hstart, hstop⟩

/-- A line that is not there has no entry in the table. -/
private theorem getElem?_of_lineFrom? {n : Nat} {cs : List Char} (h : lineFrom? n cs = none)
    (offset : Nat) : (offset :: breaksFrom offset cs)[n]? = none := by
  fun_induction lineFrom? n cs generalizing offset with
  | case1 => exact nomatch h
  | case2 => rfl
  | case3 n cs ih =>
    rw [breaksFrom, if_pos rfl, List.getElem?_cons_succ]
    exact ih h _
  | case4 n c cs hc ih =>
    rw [breaksFrom, if_neg hc, List.getElem?_cons_succ]
    exact ih h (offset + c.utf8Size)

/-- **Two ways to look a line up.** The lookup by offsets does not go wrong and finds what counting
line breaks finds. -/
theorem lineByOffset?_eq (source : List Char) (number : Nat) :
    lineByOffset? source number = some (line? source number) := by
  cases number with
  | zero => rfl
  | succ n =>
    have hindex : sub? (n + 1) 1 = some n := by
      rw [Nat.add_comm]
      exact sub?_add 1 n
    rw [lineByOffset?, if_neg (Nat.succ_ne_zero n), hindex, Option.bind_eq_bind, Option.bind_some,
      line?, lineStarts]
    cases hline : lineFrom? n source with
    | none =>
      rw [getElem?_of_lineFrom? hline]
      rfl
    | some line =>
      obtain ⟨before, rest, hsplit, hstart, hnext⟩ := exists_of_lineFrom? hline 0
      rw [Nat.zero_add] at hstart hnext
      have hslice := slice?_append before line rest
      rw [← hsplit] at hslice
      rw [hstart]
      rcases hnext with ⟨hnext, rfl⟩ | hnext
      · have hsize : byteLength source = byteLength before + byteLength line := by
          rw [hsplit, List.append_nil, byteLength_append]
        simp only [hnext, hsize, hslice, Option.bind_eq_bind, Option.bind_some, Option.map_some]
      · have hstop : sub? (byteLength before + byteLength line + 1) 1 =
            some (byteLength before + byteLength line) := by
          rw [Nat.add_comm]
          exact sub?_add 1 _
        simp only [hnext, hstop, hslice, Option.bind_eq_bind, Option.bind_some, Option.map_some]

end Source

namespace Diagnostic

open Source (sub? lineByOffset?)

/-- Number of carets below a span, unless the column in which the span starts is needed and is
zero. -/
def caretCount? (span : Span) (line : List Char) : Option Nat := do
  let width ←
    if span.start.line = span.stop.line then some (span.stop.column - span.start.column)
    else do
      let before ← sub? span.start.column 1
      some (line.length - before)
  some (max width 1)

/-- The text of an error with the line looked up by offsets, unless a step goes wrong. -/
def render? (source : List Char) (span : Span) (message : String) : Option String := do
  match ← lineByOffset? source span.start.line with
  | none => some (heading span message)
  | some line =>
    let count ← caretCount? span line
    some (heading span message ++ quote span line count)

private theorem caretCount?_eq {span : Span} (h : 1 ≤ span.start.column) (line : List Char) :
    caretCount? span line = some (caretCount span line) := by
  have hbefore : sub? span.start.column 1 = some (span.start.column - 1) := if_pos h
  rw [caretCount?, caretCount]
  split_ifs
  · rfl
  · rw [hbefore]
    rfl

/-- **Diagnostics do not go wrong.** Whatever the text is, the diagnostic of a span that starts in
a column is computed by offsets as it is by counting. -/
theorem render?_eq {span : Span} (h : 1 ≤ span.start.column) (source : List Char)
    (message : String) : render? source span message = some (render source span message) := by
  rw [render?, render, Source.lineByOffset?_eq, Option.bind_eq_bind, Option.bind_some]
  cases Source.line? source span.start.line with
  | none => rfl
  | some line => simp only [caretCount?_eq h, Option.bind_eq_bind, Option.bind_some]

end Diagnostic

end PackageScan
