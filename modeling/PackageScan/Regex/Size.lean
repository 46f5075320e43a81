import PackageScan.Regex.Basic

/-!
# The size of a pattern's program

Before it can run, a pattern is turned into a program of states; the size of that program is
bounded. A state takes thirty-two bytes, a transition eight and an alternative four. A bounded
repetition is written out as often as its bounds say, which is what makes small patterns big.

A pattern that stands for a handful of short literal byte strings is searched for directly and
needs no program, so no bound applies to it (`Regex.isLiteral`).
-/

namespace PackageScan

namespace Regex

/-- Bytes of a state. -/
def stateSize : Nat := 32

/-- Bytes of the states around every program: its groups, its end and the unanchored start. -/
def frameSize : Nat := 8 * stateSize

/-- Can the pattern match an empty run? -/
def isNullable : Regex → Bool
  | empty => true
  | set _ => false
  | look _ => true
  | group inner => inner.isNullable
  | seq left right => left.isNullable && right.isNullable
  | alt left right => left.isNullable || right.isNullable
  | repeated inner least _ _ => least == 0 || inner.isNullable

/-- Size of the states of a pattern, added to `rest`. -/
def addSize : Regex → Nat → Nat
  | empty, rest => rest + stateSize
  | set bytes, rest =>
    let ranges := bytes.runs
    if ranges = 1 && bytes.toList.length = 1 then rest + stateSize
    else rest + 2 * stateSize + 8 * ranges
  | look _, rest => rest + stateSize
  | group inner, rest => inner.addSize (rest + 2 * stateSize)
  | seq left right, rest => left.addSize (right.addSize rest)
  | alt left right, rest => left.addSize (right.addSize (rest + stateSize + 8))
  | repeated inner least most _, rest =>
    let one := inner.addSize 0
    let branch := stateSize + 8
    match most with
    | none =>
      let copies := max least 1
      let extra := if least = 0 && inner.isNullable then branch + 2 * stateSize else branch
      rest + copies * one + extra
    | some most =>
      if most ≤ least then rest + (if least = 0 then stateSize else least * one)
      else rest + most * one + (most - least) * branch + stateSize

/-- Size of the program of a pattern. -/
def programSize (r : Regex) : Nat := r.addSize frameSize

/-! ### Patterns without a program -/

/-- Most literals that are searched for directly. -/
def literalsMax : Nat := 64

/-- All ways to go on from one string with another, in the order of preference, unless they are
too many. -/
private def crossing (firsts seconds : List (List UInt8)) : Option (List (List UInt8)) :=
  if 250 < firsts.length * seconds.length then none
  else some (firsts.flatMap fun a => seconds.map fun b => a ++ b)

/-- Crosses a list of strings with itself. -/
private def crossings (strings : List (List UInt8)) : Nat → Option (List (List UInt8))
  | 0 => some [[]]
  | n + 1 => do crossing (← crossings strings n) strings

/-- The strings that a pattern stands for, the preferred ones first, if it has neither
assertions nor groups and stands for few strings of at most `room` bytes only. -/
def literals? (room : Nat) : Regex → Option (List (List UInt8))
  | empty => some [[]]
  | set bytes =>
    let members := bytes.toList
    if room = 0 || 10 < members.length then none else some (members.map fun b => [b])
  | look _ => none
  | group _ => none
  | seq left right => do
    let rights ← right.literals? room
    let taken := (rights.map List.length).foldl max 0
    let lefts ← left.literals? (room - taken)
    crossing lefts rights
  | alt left right => do
    let lefts ← left.literals? room
    let rights ← right.literals? room
    if 250 < lefts.length + rights.length then none else some (lefts ++ rights)
  | repeated inner least most greedy => do
    let strings ← inner.literals? room
    match most with
    | some most =>
      if least = 0 && most = 1 then
        some (if greedy then strings ++ [[]] else [] :: strings)
      else if least = most && least ≤ 10 then crossings strings least
      else none
    | none => none

/-- Longest literal that is searched for directly. -/
def literalLength : Nat := 100

/-- Is the pattern searched for as a handful of literals? A single literal always is; several
ones are if they stay few without being shortened. -/
def isLiteral (r : Regex) : Bool :=
  match r.literals? literalLength with
  | none | some [] => false
  | some [s] => !s.isEmpty
  | some strings =>
    strings.all (fun s => !s.isEmpty) && strings.length ≤ literalsMax &&
      (strings.length ≤ 10 || strings.all fun s => s.length ≤ 4)

/-- Does the pattern keep to a bound on programs? -/
def fits (limit : Nat) (r : Regex) : Bool := r.isLiteral || r.programSize ≤ limit

end Regex

end PackageScan
