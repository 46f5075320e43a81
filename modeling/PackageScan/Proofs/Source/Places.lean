import Mathlib.Algebra.Ring.Nat
import Mathlib.Data.List.DropRight
import Mathlib.Data.List.Infix
import PackageScan.Source.Diagnostic

/-!
# Places of a text

The reader of a source keeps its place by advancing over one character after another. Here a place
is counted at one go from the text before it (`Position.after`): its bytes, its line breaks and the
characters of its last line. The two agree (`Position.advanceAll_after`), so a place is true of a
text exactly if it is counted from a prefix of the text (`Position.isIn_iff`).

* **Spans**: a span is *in* a text when it covers a stretch of it (`Span.IsIn`). Of two prefixes of
  one text the one with fewer bytes is a prefix of the other, so that two true places in order are
  the ends of a stretch (`Span.isIn_iff`), and spans in a text can be joined (`Span.IsIn.join`).
* **Lines**: the line with the number of a place is the line that the place stands on
  (`Source.line?_after`).
-/

namespace PackageScan

/-! ### Bytes and lines of a text -/

namespace Source

/-- Length of a text in bytes of UTF-8. -/
def byteLength (cs : List Char) : Nat := (String.ofList cs).utf8ByteSize

@[simp] theorem byteLength_nil : byteLength [] = 0 := by simp [byteLength]

@[simp] theorem byteLength_append (cs ds : List Char) :
    byteLength (cs ++ ds) = byteLength cs + byteLength ds := by
  rw [byteLength, String.ofList_append, String.utf8ByteSize_append]
  rfl

@[simp] theorem byteLength_singleton (c : Char) : byteLength [c] = c.utf8Size := by
  rw [byteLength, ← String.singleton_eq_ofList, String.utf8ByteSize_singleton]

theorem byteLength_cons (c : Char) (cs : List Char) :
    byteLength (c :: cs) = c.utf8Size + byteLength cs := by
  rw [← List.singleton_append, byteLength_append, byteLength_singleton]

theorem byteLength_toList (s : String) : byteLength s.toList = s.utf8ByteSize := by
  rw [byteLength, String.ofList_toList]

/-- A text has at least as many bytes as characters. -/
private theorem length_le_byteLength (cs : List Char) : cs.length ≤ byteLength cs := by
  induction cs with
  | nil => exact Nat.zero_le _
  | cons c cs ih =>
    have hc : 0 < c.utf8Size := c.utf8Size_pos
    rw [byteLength_cons, List.length_cons]
    omega

/-- The characters of a text up to its first line break. -/
def firstLine (cs : List Char) : List Char := cs.takeWhile (· ≠ '\n')

private theorem firstLine_append_of_notMem {cs : List Char} (h : '\n' ∉ cs) (ds : List Char) :
    firstLine (cs ++ ds) = cs ++ firstLine ds := by
  refine List.takeWhile_append_of_pos fun c hc => ?_
  have hne : c ≠ '\n' := fun he => h (he ▸ hc)
  simpa using hne

/-- The characters of a text after its last line break. -/
def lastLine (cs : List Char) : List Char := cs.rtakeWhile (· ≠ '\n')

theorem lastLine_concat (cs : List Char) (c : Char) :
    lastLine (cs ++ [c]) = if c = '\n' then [] else lastLine cs ++ [c] := by
  rw [lastLine, List.rtakeWhile_concat]
  by_cases hc : c = '\n' <;> simp [hc, lastLine]

/-- What no line break follows is at the end of the last line. -/
theorem lastLine_append_of_notMem (cs : List Char) {ds : List Char} (h : '\n' ∉ ds) :
    lastLine (cs ++ ds) = lastLine cs ++ ds := by
  induction ds using List.reverseRecOn with
  | nil => rw [List.append_nil, List.append_nil]
  | append_singleton ds d ih =>
    rw [List.mem_append, List.mem_singleton, not_or] at h
    rw [← List.append_assoc, lastLine_concat, if_neg fun hd => h.2 hd.symm, ih h.1,
      List.append_assoc]

/-- A text without a line break is its own last line. -/
private theorem lastLine_eq_self {cs : List Char} (h : '\n' ∉ cs) : lastLine cs = cs :=
  lastLine_append_of_notMem [] h

/-- What precedes a line break is not in the last line. -/
private theorem lastLine_append_of_mem (cs : List Char) {ds : List Char} (h : '\n' ∈ ds) :
    lastLine (cs ++ ds) = lastLine ds := by
  induction ds using List.reverseRecOn with
  | nil => exact absurd h List.not_mem_nil
  | append_singleton ds d ih =>
    rw [← List.append_assoc, lastLine_concat, lastLine_concat]
    split_ifs with hd
    · rfl
    · have hmem : '\n' ∈ ds := by
        rcases List.mem_append.mp h with hds | hlast
        · exact hds
        · exact absurd (List.mem_singleton.mp hlast).symm hd
      rw [ih hmem]

end Source

/-! ### Places counted at one go -/

namespace Position

open Source

/-- The place after a text. -/
def after (before : List Char) : Position where
  offset := byteLength before
  line := before.count '\n' + 1
  column := (lastLine before).length + 1

/-- One character more is one step on. -/
private theorem after_concat (before : List Char) (c : Char) :
    after (before ++ [c]) = (after before).advance c := by
  rw [advance, after, lastLine_concat, List.count_append, byteLength_append,
    byteLength_singleton]
  by_cases hc : c = '\n'
  · have hsize : ('\n' : Char).utf8Size = 1 := by decide
    simp [hc, after, hsize]
  · simp [hc, after]

/-- **Counting and advancing agree.** -/
theorem advanceAll_after (before cs : List Char) :
    (after before).advanceAll cs = after (before ++ cs) := by
  induction cs generalizing before with
  | nil => rw [advanceAll_nil, List.append_nil]
  | cons c cs ih => rw [advanceAll_cons, ← after_concat, ih, List.append_assoc]; rfl

theorem advanceAll_start (before : List Char) : start.advanceAll before = after before := by
  have hstart : start = after [] := by simp [start, after, lastLine]
  rw [hstart, advanceAll_after, List.nil_append]

/-- A place is true of a text when it is counted from a prefix of it. -/
theorem isIn_iff {p : Position} {text : List Char} :
    p.IsIn text ↔ ∃ before rest, text = before ++ rest ∧ p = after before := by
  simp only [IsIn, advanceAll_start]

theorem isIn_after {before text : List Char} (h : before <+: text) : (after before).IsIn text := by
  obtain ⟨rest, rfl⟩ := h
  exact isIn_iff.mpr ⟨before, rest, rfl, rfl⟩

/-- None of the counts is larger than the number of bytes by more than one. -/
theorem after_le (before : List Char) :
    (after before).offset ≤ byteLength before ∧ (after before).line ≤ byteLength before + 1 ∧
      (after before).column ≤ byteLength before + 1 := by
  have hlength : before.length ≤ byteLength before := length_le_byteLength before
  have hcount : before.count '\n' ≤ before.length := List.count_le_length
  have hlast : (lastLine before).length ≤ before.length :=
    (List.rtakeWhile_suffix _ before).length_le
  refine ⟨Nat.le_refl _, ?_, ?_⟩ <;> dsimp only [after] <;> omega

/-- The counts of the place are numbers of thirty-two bits. -/
def Fits (p : Position) : Prop := p.offset < 2 ^ 32 ∧ p.line < 2 ^ 32 ∧ p.column < 2 ^ 32

/-- Of two prefixes of a text, the one with no more bytes is a prefix of the other. -/
private theorem prefix_of_offset_le {text before before' : List Char} (h : before <+: text)
    (h' : before' <+: text) (hle : (after before).offset ≤ (after before').offset) :
    before <+: before' := by
  rcases List.prefix_or_prefix_of_prefix h h' with hp | ⟨rest, rfl⟩
  · exact hp
  · have hbytes : byteLength before' + byteLength rest ≤ byteLength before' := by
      rw [← byteLength_append]
      exact hle
    have hrest : rest = [] := by
      have hlength : rest.length ≤ byteLength rest := length_le_byteLength rest
      exact List.length_eq_zero_iff.mp (by omega)
    rw [hrest, List.append_nil]

end Position

/-! ### Stretches of a text -/

namespace Span

open Source

/-- The span of a stretch of text. -/
def covering (before stretch : List Char) : Span where
  start := .after before
  stop := .after (before ++ stretch)

/-- The span covers a stretch of the text. -/
def IsIn (s : Span) (text : List Char) : Prop :=
  ∃ before stretch rest, text = before ++ (stretch ++ rest) ∧ s = covering before stretch

variable {s t : Span} {p : Position} {text : List Char}

theorem covering_start_le_stop (before stretch : List Char) :
    (covering before stretch).start.offset ≤ (covering before stretch).stop.offset := by
  dsimp only [covering, Position.after]
  rw [byteLength_append]
  exact Nat.le_add_right _ _

/-- A stretch that is not empty ends after its start. -/
theorem covering_start_lt_stop (before : List Char) {stretch : List Char} (h : stretch ≠ []) :
    (covering before stretch).start.offset < (covering before stretch).stop.offset := by
  have hlength : stretch.length ≤ byteLength stretch := length_le_byteLength stretch
  have hpos : 0 < stretch.length := List.length_pos_iff.mpr h
  dsimp only [covering, Position.after]
  rw [byteLength_append]
  omega

/-- **Two true places in order** are the ends of a stretch. -/
theorem isIn_iff : s.IsIn text ↔
    s.start.IsIn text ∧ s.stop.IsIn text ∧ s.start.offset ≤ s.stop.offset := by
  constructor
  · rintro ⟨before, stretch, rest, rfl, rfl⟩
    refine ⟨Position.isIn_after ⟨_, rfl⟩, ?_, covering_start_le_stop before stretch⟩
    exact Position.isIn_after ⟨rest, List.append_assoc ..⟩
  · rintro ⟨hstart, hstop, hle⟩
    obtain ⟨before, rest, htext, hbefore⟩ := Position.isIn_iff.mp hstart
    obtain ⟨before', rest', htext', hbefore'⟩ := Position.isIn_iff.mp hstop
    rw [hbefore, hbefore'] at hle
    obtain ⟨stretch, rfl⟩ :=
      Position.prefix_of_offset_le ⟨rest, htext.symm⟩ ⟨rest', htext'.symm⟩ hle
    refine ⟨before, stretch, rest', by rw [htext', List.append_assoc], ?_⟩
    rw [covering, ← hbefore, ← hbefore']

theorem isIn_point (h : p.IsIn text) : (point p).IsIn text :=
  isIn_iff.mpr ⟨h, h, Nat.le_refl _⟩

/-- **Joins.** What covers two stretches of a text is a stretch of it. -/
theorem IsIn.join (hs : s.IsIn text) (ht : t.IsIn text) : (s.join t).IsIn text := by
  obtain ⟨hs₁, hs₂, hs⟩ := isIn_iff.mp hs
  obtain ⟨ht₁, ht₂, ht⟩ := isIn_iff.mp ht
  refine isIn_iff.mpr ⟨?_, ?_, ?_⟩
  · dsimp only [Span.join]
    split_ifs <;> assumption
  · dsimp only [Span.join]
    split_ifs <;> assumption
  · dsimp only [Span.join]
    split_ifs <;> omega

end Span

/-! ### The line of a place -/

namespace Source

private theorem lineFrom?_count (before rest : List Char) :
    lineFrom? (before.count '\n') (before ++ rest) = some (lastLine before ++ firstLine rest) := by
  induction before with
  | nil => simp [lineFrom?, lastLine, firstLine]
  | cons c before ih =>
    rw [List.cons_append]
    by_cases hmem : '\n' ∈ before
    · -- the last line begins later, and the lookup goes on to it
      have hlast : lastLine (c :: before) = lastLine before := lastLine_append_of_mem [c] hmem
      obtain ⟨n, hn⟩ : ∃ n, before.count '\n' = n + 1 :=
        Nat.exists_eq_succ_of_ne_zero (List.count_pos_iff.mpr hmem).ne'
      by_cases hc : c = '\n'
      · rw [hc, List.count_cons_self, lineFrom?, if_pos rfl, ih, ← hlast, hc]
      · rw [List.count_cons_of_ne hc, hn, lineFrom?, if_neg hc, ← hn, ih, hlast]
    · have hzero : before.count '\n' = 0 := List.count_eq_zero.mpr hmem
      by_cases hc : c = '\n'
      · have hlast : lastLine ('\n' :: before) = lastLine before := by
          have hsplit := lastLine_append_of_notMem ['\n'] hmem
          rw [lastLine_eq_self hmem]
          exact hsplit
        rw [hc, List.count_cons_self, lineFrom?, if_pos rfl, ih, hlast]
      · have hmem' : '\n' ∉ c :: before := by
          rw [List.mem_cons, not_or]
          exact ⟨fun h => hc h.symm, hmem⟩
        rw [List.count_cons_of_ne hc, hzero, lineFrom?, lastLine_eq_self hmem',
          ← List.cons_append]
        exact congrArg some (firstLine_append_of_notMem hmem' rest)

/-- **The line of a place.** It begins with what precedes the place after the last line break and
ends before the next one; carriage returns at its end are not shown. -/
theorem line?_after (before rest : List Char) :
    line? (before ++ rest) (Position.after before).line =
      some (trimReturns (lastLine before ++ firstLine rest)) := by
  rw [Position.after, line?, lineFrom?_count, Option.map_some]

end Source

end PackageScan
