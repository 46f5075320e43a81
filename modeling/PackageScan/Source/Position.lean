/-!
# Positions and spans of a rule source

A `Position` counts what precedes it three ways: bytes of UTF-8 text, lines and characters of
the current line. It is advanced one character at a time, so the position after a text is a
fold over its characters (`Position.advanceAll`), and a position is *true* of a source when it
is reached by advancing over some prefix of it (`Position.IsIn`).

A `Span` is a pair of positions. Spans are joined by `Span.join`, which covers both operands.
-/

namespace PackageScan

/-- A place in a text: byte offset from zero, line and column from one. -/
structure Position where
  /-- Number of bytes of UTF-8 before this place. -/
  offset : Nat
  /-- One more than the number of newlines before this place. -/
  line : Nat
  /-- One more than the number of characters between the last newline and this place. -/
  column : Nat
  deriving DecidableEq, Repr, Inhabited

namespace Position

/-- The first place of every text. -/
def start : Position := ⟨0, 1, 1⟩

/-- The place of an error that no text is responsible for. -/
def unknown : Position := ⟨0, 0, 0⟩

/-- The place right after a character: a newline opens the next line, and any other
character takes one column and its UTF-8 length in bytes. -/
def advance (p : Position) (c : Char) : Position :=
  if c = '\n' then ⟨p.offset + 1, p.line + 1, 1⟩
  else ⟨p.offset + c.utf8Size, p.line, p.column + 1⟩

/-- The place right after a run of characters. -/
def advanceAll (p : Position) (cs : List Char) : Position :=
  cs.foldl advance p

/-- A place is *true* of a text when it is the place after one of its prefixes. -/
def IsIn (p : Position) (text : List Char) : Prop :=
  ∃ before after, text = before ++ after ∧ p = start.advanceAll before

@[simp] theorem advanceAll_nil (p : Position) : p.advanceAll [] = p := rfl

@[simp] theorem advanceAll_cons (p : Position) (c : Char) (cs : List Char) :
    p.advanceAll (c :: cs) = (p.advance c).advanceAll cs := rfl

theorem advanceAll_append (p : Position) (cs ds : List Char) :
    p.advanceAll (cs ++ ds) = (p.advanceAll cs).advanceAll ds := by
  simp [advanceAll, List.foldl_append]

/-- A place is shown as line and column. -/
def render (p : Position) : String := s!"{p.line}:{p.column}"

end Position

/-- A stretch of a text, the end excluded. -/
structure Span where
  /-- First place of the stretch. -/
  start : Position
  /-- Place right after the stretch. -/
  stop : Position
  deriving DecidableEq, Repr, Inhabited

namespace Span

/-- The empty stretch at a place. -/
def point (p : Position) : Span := ⟨p, p⟩

/-- The span of an error that no text is responsible for. -/
def unknown : Span := point Position.unknown

/-- The smallest stretch that covers both operands. Of two ends with one offset the second
operand's is taken. -/
def join (a b : Span) : Span where
  start := if a.start.offset < b.start.offset then a.start else b.start
  stop := if b.stop.offset < a.stop.offset then a.stop else b.stop

/-- Length in bytes. -/
def size (s : Span) : Nat := s.stop.offset - s.start.offset

/-- Does the stretch hold no byte? -/
def isEmpty (s : Span) : Bool := s.start.offset == s.stop.offset

/-- A span within one line names the line once. -/
def render (s : Span) : String :=
  if s.start.line = s.stop.line then s!"{s.start.line}:{s.start.column}-{s.stop.column}"
  else s.start.render ++ "-" ++ s.stop.render

end Span

/-- A value together with the stretch of text it was read from. -/
structure Located (α : Type) where
  /-- What was read. -/
  value : α
  /-- Where it was read. -/
  span : Span
  deriving DecidableEq, Repr, Inhabited

end PackageScan
