import PackageScan.Proofs.Source.Quoting
import PackageScan.Proofs.Text.Digits

/-!
# Where the carets of a diagnostic stand

A diagnostic ends with two rows: the quoted line behind a label with its number, and the carets
behind a margin (`Diagnostic.quotedRow_render`, `Diagnostic.caretRow_render`). What a place has
before it on its line is quoted as it is, so that a character stands as many characters behind the
label as its column says (`Source.exists_trimReturns_append`). The carets stand as many behind the
margin. The margin is blank where the label has its number, but three characters wider.

* **Carets and characters**: the first caret stands three characters behind the one that the span
  starts with, and a span on one line has a caret for each character
  (`Diagnostic.underlines_render`).
* **Out of line**: a diagnostic whose first caret is not below the first character of the span
  (`Diagnostic.idxOf?_caret_ne`).
-/

namespace PackageScan

/-! ### Rows and lines -/

namespace Source

variable {text row : List Char}

/-- The last row of a text, without the line break at its end. -/
def lastRow (text : List Char) : List Char := lastLine text.dropLast

/-- What is before the last row of a text. -/
def beforeLastRow (text : List Char) : List Char := text.dropLast.rdropWhile (· ≠ '\n')

private theorem lastRow_append (h : '\n' ∉ row) (above : List Char) :
    lastRow (above ++ '\n' :: (row ++ ['\n'])) = row := by
  rw [lastRow, ← List.cons_append, ← List.append_assoc, List.dropLast_concat,
    List.append_cons, lastLine_append_of_notMem _ h, lastLine_concat, if_pos rfl, List.nil_append]

private theorem beforeLastRow_append (h : '\n' ∉ row) (above : List Char) :
    beforeLastRow (above ++ '\n' :: (row ++ ['\n'])) = above ++ ['\n'] := by
  have hrow : ∀ c ∈ row.reverse, decide (c ≠ '\n') = true := fun c hc =>
    decide_eq_true fun he => h (he ▸ List.mem_reverse.mp hc)
  rw [beforeLastRow, ← List.cons_append, ← List.append_assoc, List.dropLast_concat,
    List.append_cons, List.rdropWhile, List.reverse_append, List.dropWhile_append_of_pos hrow,
    ← List.rdropWhile, List.rdropWhile_concat_neg _ _ _ (by decide)]

/-- Carriage returns are not shown only if nothing but them is left of the line. -/
theorem exists_trimReturns_append (front : List Char) {c : Char} {rest : List Char}
    (h : ∃ d ∈ c :: rest, d ≠ '\r') :
    ∃ more, trimReturns (front ++ c :: rest) = front ++ c :: more := by
  have hkept : (c :: rest).reverse.dropWhile (· == '\r') ≠ [] := by
    obtain ⟨d, hd, hne⟩ := h
    intro hnil
    exact hne (beq_iff_eq.mp (List.dropWhile_eq_nil_iff.mp hnil d (List.mem_reverse.mpr hd)))
  obtain ⟨dropped, hsplit⟩ := List.rdropWhile_prefix (· == '\r') (c :: rest)
  cases hkeep : (c :: rest).rdropWhile (· == '\r') with
  | nil => exact absurd (List.reverse_eq_nil_iff.mp hkeep) hkept
  | cons d more =>
    rw [hkeep, List.cons_append] at hsplit
    obtain ⟨rfl, -⟩ := List.cons.inj hsplit
    refine ⟨more, ?_⟩
    rw [trimReturns, List.reverse_append, List.dropWhile_append, if_neg (by simpa using hkept),
      List.reverse_append, List.reverse_reverse, ← hkeep, List.rdropWhile]

private theorem notMem_of_lineFrom? {n : Nat} {cs line : List Char}
    (h : lineFrom? n cs = some line) :
    '\n' ∉ line := by
  fun_induction lineFrom? n cs with
  | case1 cs =>
    cases h
    exact fun hmem => by simpa using List.mem_takeWhile_imp hmem
  | case2 => cases h
  | case3 _ _ ih | case4 _ _ _ _ ih => exact ih h

/-- A line that is looked up is one line. -/
private theorem notMem_of_line? {source line : List Char} {number : Nat}
    (h : line? source number = some line) : '\n' ∉ line := by
  cases number with
  | zero => exact nomatch h
  | succ n =>
    obtain ⟨whole, hwhole, rfl⟩ := Option.map_eq_some_iff.mp h
    have hshown : trimReturns whole <+: whole := List.rdropWhile_prefix _ whole
    exact fun hmem => notMem_of_lineFrom? hwhole (hshown.subset hmem)

end Source

namespace Diagnostic

open Source (firstLine lastLine lastRow beforeLastRow line? textOf)

/-- The row of the quoted line. -/
def quotedRow (text : String) : List Char := lastRow (beforeLastRow text.toList)

/-- The row of the carets. -/
def caretRow (text : String) : List Char := lastRow text.toList

/-- What stands before the quoted line: its number. -/
def label (span : Span) : List Char := (Nat.repr span.start.line).toList ++ [' ', '|', ' ']

/-- What stands before the carets. -/
def margin (span : Span) : List Char :=
  List.replicate (3 + (Nat.repr span.start.line).length) ' ' ++ [' ', '|', ' ']

variable {source line : List Char} {span : Span} {message : String}

/-- The two rows that a diagnostic ends with. -/
private theorem exists_toList_render (h : line? source span.start.line = some line)
    (message : String) :
    ∃ above, (render source span message).toList =
      above ++ '\n' :: (label span ++ line) ++
        '\n' :: (margin span ++ underline span (caretCount span line) ++ ['\n']) := by
  have hbar : " |\n".toList = " |".toList ++ ['\n'] := rfl
  have hindent : "\n   ".toList = '\n' :: List.replicate 3 ' ' := rfl
  have hgap : " | ".toList = [' ', '|', ' '] := rfl
  have hend : "\n".toList = ['\n'] := rfl
  refine ⟨(heading span message).toList ++ "   ".toList ++
    List.replicate (Nat.repr span.start.line).length ' ' ++ " |".toList, ?_⟩
  simp only [render, h]
  delta quote
  simp only [label, margin, String.toList_append, toString, Text.toList_pushn,
    String.toList_ofList, String.toList_empty, hbar, hindent, hgap, hend, List.replicate_add,
    List.append_assoc, List.cons_append, List.nil_append]

private theorem notMem_label (span : Span) : '\n' ∉ label span := by
  intro hmem
  rcases List.mem_append.mp hmem with hdigit | hbar
  · rw [Decimal.toList_repr] at hdigit
    exact absurd (Decimal.isDigit_of_mem_toDigits hdigit) (by decide)
  · exact absurd hbar (by decide)

private theorem notMem_margin {c : Char} (hspace : c ≠ ' ') (hbar : c ≠ '|') (span : Span) :
    c ∉ margin span := by
  simp [margin, List.mem_replicate, hspace, hbar]

private theorem notMem_margin_append_underline (span : Span) (n : Nat) :
    '\n' ∉ margin span ++ underline span n := by
  rw [List.mem_append, not_or]
  refine ⟨notMem_margin (by decide) (by decide) span, ?_⟩
  simp [underline, List.mem_replicate]

/-- **The row of carets.** -/
theorem caretRow_render (h : line? source span.start.line = some line) (message : String) :
    caretRow (render source span message) =
      margin span ++ underline span (caretCount span line) := by
  obtain ⟨above, htext⟩ := exists_toList_render h message
  rw [caretRow, htext, Source.lastRow_append (notMem_margin_append_underline span _)]

/-- **The quoted row.** -/
theorem quotedRow_render (h : line? source span.start.line = some line) (message : String) :
    quotedRow (render source span message) = label span ++ line := by
  obtain ⟨above, htext⟩ := exists_toList_render h message
  have hrow : '\n' ∉ label span ++ line := by
    rw [List.mem_append, not_or]
    exact ⟨notMem_label span, Source.notMem_of_line? h⟩
  rw [quotedRow, htext, Source.beforeLastRow_append (notMem_margin_append_underline span _),
    List.append_assoc, List.cons_append, Source.lastRow_append hrow]

/-- How a text quotes the line that a span starts on and underlines the span. -/
structure Underlines (source : List Char) (span : Span) (text : String) : Prop where
  /-- The line is quoted behind its label. -/
  quoted : ∃ line, line? source span.start.line = some line ∧ quotedRow text = label span ++ line
  /-- The character that the span starts with stands behind the label where its column says, if it
  is shown. -/
  getElem? : ∀ before c rest, source = before ++ c :: rest → span.start = .after before →
    (∃ d ∈ firstLine (c :: rest), d ≠ '\r') →
    (quotedRow text)[(label span).length + (span.start.column - 1)]? = some c
  /-- The first caret stands three characters behind it. -/
  idxOf? : (caretRow text).idxOf? '^' =
    some ((label span).length + (span.start.column - 1) + 3)
  /-- A span on one line has a caret for each character. -/
  count : span.start.line = span.stop.line → span.start.offset < span.stop.offset →
    (caretRow text).count '^' = (textOf source span).length

/-- A span on one line is as wide as the stretch that it covers. -/
private theorem caretCount_covering {before stretch : List Char} (hstretch : stretch ≠ [])
    (hline : (Span.covering before stretch).start.line =
      (Span.covering before stretch).stop.line) (line : List Char) :
    caretCount (.covering before stretch) line = stretch.length := by
  have hpos : 1 ≤ stretch.length := List.length_pos_iff.mpr hstretch
  have hmem : '\n' ∉ stretch := by
    simp only [Span.covering, Position.after, List.count_append] at hline
    exact List.count_eq_zero.mp (by omega)
  rw [caretCount, if_pos hline]
  simp only [Span.covering, Position.after, Source.lastLine_append_of_notMem _ hmem,
    List.length_append]
  omega

/-- There is a caret, and the first one stands behind the margin and the columns before the span. -/
private theorem idxOf?_caret (span : Span) (line : List Char) :
    (margin span ++ underline span (caretCount span line)).idxOf? '^' =
      some ((margin span).length + (span.start.column - 1)) := by
  have hpos : 0 < caretCount span line := Nat.lt_of_lt_of_le Nat.one_pos (Nat.le_max_right _ 1)
  obtain ⟨n, hn⟩ : ∃ n, caretCount span line = n + 1 := Nat.exists_eq_succ_of_ne_zero hpos.ne'
  have hfront : '^' ∉ margin span ++ List.replicate (span.start.column - 1) ' ' := by
    rw [List.mem_append, not_or]
    exact ⟨notMem_margin (by decide) (by decide) span, by simp [List.mem_replicate]⟩
  have hlength : (margin span ++ List.replicate (span.start.column - 1) ' ').length =
      (margin span).length + (span.start.column - 1) := by
    rw [List.length_append, List.length_replicate]
  rw [underline, hn, List.replicate_succ, ← List.append_assoc, ← hlength]
  refine List.idxOf?_eq_some_iff.mpr ⟨by simp, by simp, fun j hj hcaret => hfront ?_⟩
  rw [List.getElem_append_left hj] at hcaret
  exact hcaret ▸ List.getElem_mem hj

private theorem count_caret (span : Span) (line : List Char) :
    (margin span ++ underline span (caretCount span line)).count '^' = caretCount span line := by
  have hmargin : (margin span).count '^' = 0 :=
    List.count_eq_zero.mpr (notMem_margin (by decide) (by decide) span)
  rw [List.count_append, hmargin, underline, List.count_append, List.count_replicate_self,
    List.count_replicate, if_neg (by decide), Nat.zero_add, Nat.zero_add]

private theorem length_margin (span : Span) : (margin span).length = (label span).length + 3 := by
  simp only [margin, label, List.length_append, List.length_replicate, String.length_toList]
  omega

/-- A character that is shown is quoted in its column. -/
private theorem getElem?_quotedRow {before rest : List Char} {c : Char}
    (hstart : span.start = .after before) (hshown : ∃ d ∈ firstLine (c :: rest), d ≠ '\r')
    (message : String) :
    (quotedRow (render (before ++ c :: rest) span message))[
      (label span).length + (span.start.column - 1)]? = some c := by
  have hc : c ≠ '\n' := by
    rintro rfl
    obtain ⟨d, hd, -⟩ := hshown
    exact nomatch hd
  have hfirst : firstLine (c :: rest) = c :: firstLine rest :=
    List.takeWhile_cons_of_pos (decide_eq_true hc)
  rw [hfirst] at hshown
  obtain ⟨more, hmore⟩ := Source.exists_trimReturns_append (lastLine before) hshown
  have hline :
      line? (before ++ c :: rest) span.start.line = some (lastLine before ++ c :: more) := by
    rw [hstart, Source.line?_after, hfirst, hmore]
  have hcolumn : span.start.column - 1 = (lastLine before).length := by
    rw [hstart]
    exact Nat.add_sub_cancel _ 1
  rw [quotedRow_render hline, hcolumn, ← List.length_append, ← List.append_assoc,
    List.getElem?_append_right (Nat.le_refl _), Nat.sub_self]
  rfl

/-- **Carets below a span.** The first caret stands three characters behind the character that the
span starts with, and a span on one line has a caret for each of its characters. -/
theorem underlines_render (hstart : span.start.IsIn source) (hstop : span.stop.IsIn source)
    (message : String) : Underlines source span (render source span message) := by
  obtain ⟨before, rest, hsource, hbefore⟩ := Position.isIn_iff.mp hstart
  have hline : line? source span.start.line =
      some (Source.trimReturns (lastLine before ++ firstLine rest)) := by
    rw [hsource, hbefore, Source.line?_after]
  refine ⟨⟨_, hline, quotedRow_render hline message⟩, ?_, ?_, fun hone hlt => ?_⟩
  · intro before c rest hsource hbefore hshown
    rw [hsource]
    exact getElem?_quotedRow hbefore hshown message
  · rw [caretRow_render hline, idxOf?_caret, length_margin, Nat.add_right_comm]
  · have hin : span.IsIn source := Span.isIn_iff.mpr ⟨hstart, hstop, Nat.le_of_lt hlt⟩
    obtain ⟨before, stretch, rest, hsplit, rfl⟩ := hin
    have hstretch : stretch ≠ [] := by
      rintro rfl
      rw [Span.covering, List.append_nil] at hlt
      exact absurd hlt (Nat.lt_irrefl _)
    rw [caretRow_render hline, count_caret, caretCount_covering hstretch hone, hsplit,
      Source.textOf_covering]

/-- A source with letters of two bytes and carriage returns. -/
def quotable : List Char := "rule a\r\n// é é\r\n\x7b".toList

/-- The second letter of two bytes on the second line. -/
def quotableSpan : Span := ⟨⟨14, 2, 6⟩, ⟨16, 2, 7⟩⟩

/-- How this letter is underlined. -/
theorem underlines_render_quotable :
    quotableSpan.start.IsIn quotable ∧ quotableSpan.stop.IsIn quotable ∧
      Underlines quotable quotableSpan (render quotable quotableSpan "odd letter") := by
  have hstart : quotableSpan.start.IsIn quotable :=
    ⟨quotable.take 13, quotable.drop 13, by decide +kernel, by decide +kernel⟩
  have hstop : quotableSpan.stop.IsIn quotable :=
    ⟨quotable.take 14, quotable.drop 14, by decide +kernel, by decide +kernel⟩
  exact ⟨hstart, hstop, underlines_render hstart hstop "odd letter"⟩

/-- A name in a condition, the last one on its line. -/
def nameSpan : Span := ⟨⟨22, 2, 14⟩, ⟨24, 2, 16⟩⟩

/-- A source with this name. -/
def named : List Char := "rule a \x7b\n  condition: $x\n\x7d".toList

/-- **Out of line**: the name stands behind seventeen characters of its row, and its first caret
behind twenty. -/
theorem idxOf?_caret_ne :
    nameSpan.IsIn named ∧
      textOf named nameSpan = ['$', 'x'] ∧
      (quotedRow (render named nameSpan "undefined string identifier")).idxOf? '$' = some 17 ∧
      (caretRow (render named nameSpan "undefined string identifier")).idxOf? '^' = some 20 := by
  have hline : line? named nameSpan.start.line = some "  condition: $x".toList := by
    decide +kernel
  refine ⟨⟨named.take 22, ['$', 'x'], named.drop 24, ?_, ?_⟩, ?_, ?_, ?_⟩
  · decide +kernel
  · decide +kernel
  · decide +kernel
  · rw [quotedRow_render hline]
    decide +kernel
  · rw [caretRow_render hline]
    decide +kernel

end Diagnostic

end PackageScan
