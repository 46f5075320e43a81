import PackageScan.Source.Position

/-!
# Caret diagnostics

`Diagnostic.render` quotes the line of a source in which a span starts and underlines the
span with carets. Lines are looked up by number (`Source.line?`), independently of the
positions that the reader of the source computed, and are shown without the carriage returns
at their end.
-/

namespace PackageScan

namespace Source

/-- The line with the given index, counted from zero, without its newline. -/
def lineFrom? : Nat → List Char → Option (List Char)
  | 0, cs => some (cs.takeWhile (· ≠ '\n'))
  | _ + 1, [] => none
  | n + 1, c :: cs => if c = '\n' then lineFrom? n cs else lineFrom? (n + 1) cs

/-- Drops the carriage returns at the end of a line. -/
def trimReturns (cs : List Char) : List Char :=
  (cs.reverse.dropWhile (· == '\r')).reverse

/-- The line with the given number, counted from one; there is no line zero. -/
def line? (source : List Char) : Nat → Option (List Char)
  | 0 => none
  | n + 1 => (lineFrom? n source).map trimReturns

end Source

namespace Diagnostic

/-- Number of carets below a span: its width on a single line, else the rest of the quoted
line, and at least one. -/
def caretCount (span : Span) (line : List Char) : Nat :=
  let width :=
    if span.start.line = span.stop.line then span.stop.column - span.start.column
    else line.length - (span.start.column - 1)
  max width 1

/-- The row of carets, shifted to the column in which the span starts. -/
def underline (span : Span) (count : Nat) : List Char :=
  List.replicate (span.start.column - 1) ' ' ++ List.replicate count '^'

/-- The quoted line between its margin and a row of so many carets. -/
def quote (span : Span) (line : List Char) (count : Nat) : String :=
  let number := toString span.start.line
  let margin := "".pushn ' ' number.length
  s!"   {margin} |\n{number} | {String.ofList line}\n   {margin} | " ++
    String.ofList (underline span count) ++ "\n"

/-- The text of an error and the place it points at. -/
def heading (span : Span) (message : String) : String :=
  s!"error: {message}\n  --> {span.start.line}:{span.start.column}\n"

/-- The text of an error, the place it points at and, if the source has that line, the line
with the span underlined. -/
def render (source : List Char) (span : Span) (message : String) : String :=
  match Source.line? source span.start.line with
  | some line => heading span message ++ quote span line (caretCount span line)
  | none => heading span message

end Diagnostic

end PackageScan
