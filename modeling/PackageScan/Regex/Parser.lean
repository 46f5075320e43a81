import PackageScan.Regex.Basic
import PackageScan.Text.Blank
import PackageScan.Text.Hexadecimal
import PackageScan.Text.Utf8

/-!
# Reading regular expressions

The dialect has alternation, groups (plain, named and not capturing), flags, greedy and lazy
repetitions that may be stacked, classes with ranges, nesting, set operations and named sets,
assertions and escapes. It works on bytes: a character beyond ASCII stands for its UTF-8 bytes
and may not be used in a class, and classes, word boundaries and letter case are those of ASCII.
Look-around and references back are refused. So is everything that needs Unicode mode: sets that are
named by a property, and any expression that turns the mode on with the flag `u`, even where the
mode would make no difference. The flag may be turned off, as it is from the start.

The reader walks over the characters with the open groups on a stack. Every step takes at least
one character, so the length of the expression bounds the number of steps. Each item carries
how deep it nests, since deeply nested expressions are refused.
-/

namespace PackageScan

/-- Why a regular expression cannot be used. -/
inductive RegexFault where
  | unclosedGroup
  | unopenedGroup
  | unclosedClass
  | invalidRange
  | invalidClassItem
  | beyondAscii
  | nothingToRepeat
  | malformedRepetition
  | reversedRepetition
  | backReference
  | lookAround
  | unknownEscape
  | malformedEscape
  | unknownBoundary
  | unknownFlag
  /-- The flag that turns Unicode mode on. -/
  | unicodeMode
  | repeatedFlag
  | danglingNegation
  | malformedGroupName
  | duplicateGroupName
  | tooDeep
  /-- The program of the expression is beyond the limit. -/
  | programTooLarge (limit : Nat)
  deriving DecidableEq, Repr

/-- The fault in words. -/
def RegexFault.message : RegexFault → String
  | unclosedGroup => "unclosed group"
  | unopenedGroup => "unopened group"
  | unclosedClass => "unclosed character class"
  | invalidRange => "invalid character class range, the start must be at most the end"
  | invalidClassItem => "invalid item in a character class"
  | beyondAscii => "character beyond ASCII not allowed here"
  | nothingToRepeat => "repetition operator missing expression"
  | malformedRepetition => "malformed repetition count"
  | reversedRepetition => "invalid repetition count range, the start must be at most the end"
  | backReference => "backreferences are not supported"
  | lookAround => "look-around is not supported"
  | unknownEscape => "unrecognized escape sequence"
  | malformedEscape => "malformed hexadecimal escape sequence"
  | unknownBoundary => "unrecognized word boundary assertion"
  | unknownFlag => "unrecognized flag"
  | unicodeMode => "Unicode mode is not supported"
  | repeatedFlag => "repeated flag"
  | danglingNegation => "dangling flag negation operator"
  | malformedGroupName => "malformed capture group name"
  | duplicateGroupName => "duplicate capture group name"
  | tooDeep => "expression nested too deeply"
  | programTooLarge limit => s!"Compiled regex exceeds size limit of {limit} bytes."

namespace Regex

/-- The flags in force at a place of an expression. -/
structure Flags where
  /-- Letters of either case match. -/
  ignoreCase : Bool := false
  /-- The dot matches a newline. -/
  dotAll : Bool := false
  /-- Anchors match at lines. -/
  multiLine : Bool := false
  /-- Greedy and lazy are exchanged. -/
  swapGreed : Bool := false
  /-- White space and comments are skipped. -/
  verbose : Bool := false
  /-- A return ends a line too. -/
  returns : Bool := false
  deriving DecidableEq, Repr

namespace Reader

/-- Characters that are still to be read. -/
abbrev Chars := List Char

/-- How deep an expression may nest. -/
def maxDepth : Nat := 250

/-! ### White space -/

/-- The text after leading white space and comments; `comment` says that it starts in one. -/
def dropBlank (comment : Bool) : Chars → Chars
  | [] => []
  | c :: rest =>
    if comment then dropBlank (c != '\n') rest
    else if c == '#' then dropBlank true rest
    else if Text.isBlank c then dropBlank false rest
    else c :: rest

/-- The text after what the flags say is to be skipped. -/
def skip (flags : Flags) (cs : Chars) : Chars := if flags.verbose then dropBlank false cs else cs

/-! ### Escapes -/

/-- What one character or escape stands for. -/
inductive Primitive where
  /-- A character; `rawByte` says that two hexadecimal digits name a byte. -/
  | literal (c : Char) (rawByte : Bool)
  /-- A set of bytes with a name of its own. -/
  | named (bytes : ByteSet)
  /-- A condition on a place. -/
  | assertion (a : Assertion)

/-- Hexadecimal digits, `left` of them. -/
def fixedHex (flags : Flags) : Nat → Nat → Chars → Except RegexFault (Nat × Chars)
  | 0, value, cs => .ok (value, cs)
  | left + 1, value, cs =>
    match cs with
    | [] => .error .malformedEscape
    | c :: rest =>
      match Hexadecimal.value? c with
      | some d =>
        let value := value * 16 + d
        if left = 0 then .ok (value, rest) else fixedHex flags left value (skip flags rest)
      | none => .error .malformedEscape

/-- Hexadecimal digits up to a closing brace. The first argument bounds their number. -/
def bracedHex (flags : Flags) : Nat → Option Nat → Chars → Except RegexFault (Nat × Chars)
  | 0, _, _ => .error .malformedEscape
  | fuel + 1, value, cs =>
    match skip flags cs with
    | [] => .error .malformedEscape
    | c :: rest =>
      if c = '\x7d' then
        match value with
        | some value => .ok (value, rest)
        | none => .error .malformedEscape
      else
        match Hexadecimal.value? c with
        | some d => bracedHex flags fuel (some (min (value.getD 0 * 16 + d) 0x110000)) rest
        | none => .error .malformedEscape

/-- The character with the given code. -/
def charOf (code : Nat) : Except RegexFault Char :=
  if h : code.isValidChar then .ok (Char.ofNatAux code h) else .error .malformedEscape

/-- A hexadecimal escape after its letter, which asks for `digits` digits without braces. -/
def hexEscape (flags : Flags) (digits : Nat) (cs : Chars) :
    Except RegexFault (Primitive × Chars) := do
  match skip flags cs with
  | '\x7b' :: rest =>
    let (code, rest) ← bracedHex flags (rest.length + 1) none rest
    .ok (.literal (← charOf code) false, rest)
  | rest =>
    let (code, rest) ← fixedHex flags digits 0 rest
    .ok (.literal (← charOf code) (digits == 2), rest)

/-- The kind of word boundary that stands between braces after the escape, if the braces hold a
word at all. -/
def boundaryKind? (flags : Flags) (cs : Chars) :
    Except RegexFault (Option (Assertion × Chars)) := do
  let isNameChar (c : Char) : Bool := c.isAlpha || c == '-'
  match cs with
  | '\x7b' :: rest =>
    match skip flags rest with
    | [] => .error .unknownBoundary
    | c :: more =>
      if !isNameChar c then .ok none
      else
        let name := (c :: more).takeWhile isNameChar
        match (c :: more).dropWhile isNameChar with
        | '\x7d' :: rest =>
          match String.ofList name with
          | "start" => .ok (some (.wordStart, rest))
          | "end" => .ok (some (.wordStop, rest))
          | "start-half" => .ok (some (.wordStartHalf, rest))
          | "end-half" => .ok (some (.wordStopHalf, rest))
          | _ => .error .unknownBoundary
        | _ => .error .unknownBoundary
  | _ => .ok none

/-- The character that a letter after a backslash stands for. -/
def controlEscape? (c : Char) : Option Char :=
  if c = 'a' then some (Char.ofNat 7)
  else if c = 'f' then some (Char.ofNat 12)
  else if c = 't' then some '\t'
  else if c = 'n' then some '\n'
  else if c = 'r' then some '\r'
  else if c = 'v' then some (Char.ofNat 11)
  else none

/-- The set that a letter after a backslash stands for. -/
def namedEscape? (c : Char) : Option ByteSet :=
  if c = 'd' then some .digit
  else if c = 'D' then some (ByteSet.compl .digit)
  else if c = 's' then some .space
  else if c = 'S' then some (ByteSet.compl .space)
  else if c = 'w' then some .word
  else if c = 'W' then some (ByteSet.compl .word)
  else none

/-- An escape after its backslash. Any ASCII character but letters, digits and angle brackets
stands for itself. -/
def escape (flags : Flags) : Chars → Except RegexFault (Primitive × Chars)
  | [] => .error .unknownEscape
  | c :: rest => do
    if c.isDigit then .error .backReference
    else if c = 'x' then hexEscape flags 2 rest
    else if c = 'u' then hexEscape flags 4 rest
    else if c = 'U' then hexEscape flags 8 rest
    else if c = 'p' ∨ c = 'P' then .error .beyondAscii
    else if c = 'A' then .ok (.assertion .start, rest)
    else if c = 'z' then .ok (.assertion .stop, rest)
    else if c = 'B' then .ok (.assertion .noWordBoundary, rest)
    else if c = '<' then .ok (.assertion .wordStart, rest)
    else if c = '>' then .ok (.assertion .wordStop, rest)
    else if c = 'b' then
      match ← boundaryKind? flags rest with
      | some (a, rest) => .ok (.assertion a, rest)
      | none => .ok (.assertion .wordBoundary, rest)
    else
      match namedEscape? c, controlEscape? c with
      | some s, _ => .ok (.named s, rest)
      | none, some d => .ok (.literal d false, rest)
      | none, none =>
        if c.toNat < 128 && !c.isAlpha then .ok (.literal c false, rest)
        else .error .unknownEscape

/-! ### Classes -/

/-- The byte that a literal stands for inside a class. -/
def classByte (c : Char) (rawByte : Bool) : Except RegexFault UInt8 :=
  if c.toNat < 128 || (rawByte && c.toNat < 256) then .ok c.toNat.toUInt8
  else .error .beyondAscii

/-- An operation on the sets of a class. -/
inductive ClassOp where
  | inter
  | diff
  | symmDiff
  deriving DecidableEq, Repr

/-- The result of an operation. -/
def ClassOp.apply : ClassOp → ByteSet → ByteSet → ByteSet
  | inter, s, t => s.inter t
  | diff, s, t => s.diff t
  | symmDiff, s, t => s.symmDiff t

/-- A class that is being read. -/
structure ClassState where
  /-- The class is the complement of what it lists. -/
  negated : Bool
  /-- What has been listed since the last operation. -/
  listed : ByteSet := .none
  /-- Number of items listed since the last operation. -/
  items : Nat := 0
  /-- The left operand and the operation that waits for its right one. -/
  pending : Option (ByteSet × ClassOp) := none
  /-- How deep the items nest. -/
  depth : Nat := 0

/-- The set with letters of the other case if the flags say so. -/
def fold (flags : Flags) (s : ByteSet) : ByteSet := if flags.ignoreCase then s.foldCase else s

namespace ClassState

/-- Lists one more item. -/
def add (state : ClassState) (s : ByteSet) (depth : Nat := 0) : ClassState :=
  { state with
    listed := state.listed.union s, items := state.items + 1, depth := max state.depth depth }

/-- How deep the items listed since the last operation nest. -/
def listDepth (state : ClassState) : Nat :=
  if 1 < state.items then state.depth + 1 else state.depth

/-- The value of what has been read, the waiting operation applied, and its depth. -/
def value (flags : Flags) (state : ClassState) : ByteSet × Nat :=
  match state.pending with
  | some (left, op) => (op.apply (fold flags left) (fold flags state.listed), state.listDepth + 1)
  | none => (state.listed, state.listDepth)

/-- Starts the right operand of an operation. -/
def operate (flags : Flags) (state : ClassState) (op : ClassOp) : ClassState :=
  let (left, depth) := state.value flags
  { negated := state.negated, pending := some (left, op), depth }

/-- The finished class and its depth. -/
def close (flags : Flags) (state : ClassState) : ByteSet × Nat :=
  let (s, depth) := state.value flags
  let folded := fold flags s
  (if state.negated then folded.compl else folded, depth + 1)

end ClassState

/-- Dashes at the start of a class stand for themselves. The first argument bounds their
number. -/
def leadingDashes (flags : Flags) : Nat → ClassState → Chars → ClassState × Chars
  | 0, state, cs => (state, cs)
  | fuel + 1, state, cs =>
    match cs with
    | '-' :: rest => leadingDashes flags fuel (state.add (.single 45)) (skip flags rest)
    | _ => (state, cs)

/-- The start of a class after its bracket. -/
def openClass (flags : Flags) (cs : Chars) : Except RegexFault (ClassState × Chars) :=
  let cs := skip flags cs
  let (negated, cs) := match cs with
    | '^' :: rest => (true, skip flags rest)
    | _ => (false, cs)
  let (state, cs) := leadingDashes flags cs.length { negated } cs
  let (state, cs) := match cs with
    | ']' :: rest =>
      if state.items = 0 then (state.add (.single 93), skip flags rest) else (state, cs)
    | _ => (state, cs)
  if cs.isEmpty then .error .unclosedClass else .ok (state, cs)

/-- A set that is named between `[:` and `:]`, read after its bracket. -/
def namedClass? (flags : Flags) : Chars → Option (ByteSet × Chars)
  | ':' :: rest => do
    let (negated, rest) := match rest with
      | '^' :: rest => (true, rest)
      | _ => (false, rest)
    let name := rest.takeWhile (· != ':')
    match rest.drop name.length with
    | ':' :: ']' :: rest =>
      let s ← ByteSet.named? (String.ofList name)
      let folded := fold flags s
      some (if negated then folded.compl else folded, rest)
    | _ => none
  | _ => none

/-- One character or escape inside a class. -/
def classItem (flags : Flags) : Chars → Except RegexFault (Primitive × Chars)
  | [] => .error .unclosedClass
  | c :: rest => if c = '\\' then escape flags rest else .ok (.literal c false, rest)

/-- A character, a range or a named escape inside a class. -/
def classRange (flags : Flags) (cs : Chars) : Except RegexFault (ByteSet × Chars) := do
  let (first, rest) ← classItem flags cs
  let rest := skip flags rest
  if rest.isEmpty then .error .unclosedClass
  let single : Except RegexFault (ByteSet × Chars) := match first with
    | .literal c rawByte => do .ok (.single (← classByte c rawByte), rest)
    | .named s => .ok (s, rest)
    | .assertion _ => .error .invalidClassItem
  match rest with
  | '-' :: more =>
    let after := skip flags more
    match after with
    | ']' :: _ => single
    | '-' :: _ => single
    | [] => .error .unclosedClass
    | _ =>
      let (last, rest) ← classItem flags after
      match first, last with
      | .literal c rawC, .literal d rawD =>
        if d.toNat < c.toNat then .error .invalidRange
        else .ok (.range (← classByte c rawC) (← classByte d rawD), rest)
      | _, _ => .error .invalidClassItem
  | _ => single

/-- The rest of a class: its set, how deep it nests and what follows. The first argument bounds
the number of steps. -/
def classBody (flags : Flags) :
    Nat → ClassState → Chars → Except RegexFault (ByteSet × Nat × Chars)
  | 0, _, _ => .error .unclosedClass
  | fuel + 1, state, cs =>
    match skip flags cs with
    | [] => .error .unclosedClass
    | ']' :: rest =>
      let (s, depth) := state.close flags
      .ok (s, depth, rest)
    | '[' :: rest =>
      match namedClass? flags rest with
      | some (s, rest) => classBody flags fuel (state.add s) rest
      | none => do
        let (inner, rest) ← openClass flags rest
        let (s, depth, rest) ← classBody flags fuel inner rest
        classBody flags fuel (state.add s depth) rest
    | '&' :: '&' :: rest => classBody flags fuel (state.operate flags .inter) rest
    | '-' :: '-' :: rest => classBody flags fuel (state.operate flags .diff) rest
    | '~' :: '~' :: rest => classBody flags fuel (state.operate flags .symmDiff) rest
    | rest => do
      let (s, rest) ← classRange flags rest
      classBody flags fuel (state.add s) rest

/-! ### Items -/

/-- A part of an expression. -/
structure Item where
  /-- What it matches. -/
  regex : Regex
  /-- How deep it nests. -/
  depth : Nat := 0
  /-- May a repetition follow it? -/
  repeatable : Bool := true

/-- The items of a level of the expression, the latest first, and the alternatives before
them. -/
structure Level where
  /-- Items since the last bar. -/
  items : List Item := []
  /-- Finished alternatives. -/
  alternatives : List Item := []

namespace Level

/-- Adds an item. -/
def add (level : Level) (item : Item) : Level := { level with items := item :: level.items }

/-- The items since the last bar as one item. -/
def sequence (level : Level) : Item :=
  match level.items with
  | [] => { regex := .empty }
  | [item] => item
  | items =>
    { regex := items.reverse.foldl (fun acc item => .seq acc item.regex) .empty
      depth := items.foldl (fun acc item => max acc item.depth) 0 + 1 }

/-- Ends an alternative. -/
def bar (level : Level) : Level :=
  { items := [], alternatives := level.sequence :: level.alternatives }

/-- The whole level as one item. -/
def whole (level : Level) : Item :=
  match level.alternatives with
  | [] => level.sequence
  | earlier =>
    let all := (level.sequence :: earlier).reverse
    match all with
    | [] => { regex := .empty }
    | first :: others =>
      { regex := others.foldl (fun acc item => .alt acc item.regex) first.regex
        depth := all.foldl (fun acc item => max acc item.depth) 0 + 1 }

end Level

/-- What a literal matches: an ASCII letter in either case if the flags say so, and otherwise the
UTF-8 bytes of the character, or the one byte that two hexadecimal digits name. -/
def literal (flags : Flags) (c : Char) (rawByte : Bool) : Regex :=
  if c.toNat < 128 then .set (fold flags (.single c.toNat.toUInt8))
  else if rawByte then .set (.single c.toNat.toUInt8)
  else (Utf8.encodeChar c).foldl (fun acc b => .seq acc (.set (.single b))) .empty

/-- The item that a primitive stands for. -/
def Primitive.item (flags : Flags) : Primitive → Item
  | .literal c rawByte => { regex := Reader.literal flags c rawByte }
  | .named s => { regex := .set s }
  | .assertion a => { regex := .look a }

/-- What the dot matches. -/
def dot (flags : Flags) : ByteSet :=
  if flags.dotAll then .all
  else if flags.returns then ((ByteSet.single 10).union (.single 13)).compl
  else (ByteSet.single 10).compl

/-- Where the two anchors match. -/
def lineStart (flags : Flags) : Assertion :=
  if flags.multiLine then (if flags.returns then .lineStartReturn else .lineStart) else .start

@[inherit_doc lineStart]
def lineStop (flags : Flags) : Assertion :=
  if flags.multiLine then (if flags.returns then .lineStopReturn else .lineStop) else .stop

/-- Repeats the latest item. -/
def repeatLast (flags : Flags) (level : Level) (least : Nat) (most : Option Nat)
    (greedy : Bool) : Except RegexFault Level :=
  match level.items with
  | [] => .error .nothingToRepeat
  | item :: earlier =>
    if item.repeatable then
      let repeated : Item :=
        { regex := .repeated item.regex least most (greedy != flags.swapGreed)
          depth := item.depth + 1 }
      .ok { level with items := repeated :: earlier }
    else .error .nothingToRepeat

/-- Is a repetition made lazy here? -/
def lazyMark : Chars → Bool × Chars
  | '?' :: rest => (true, rest)
  | cs => (false, cs)

/-- A decimal number with white space around it: nothing for no digits. -/
def decimal (cs : Chars) : Except RegexFault (Option Nat × Chars) :=
  let cs := cs.dropWhile Text.isBlank
  let digits := cs.takeWhile Char.isDigit
  let rest := (cs.drop digits.length).dropWhile Text.isBlank
  if digits.isEmpty then .ok (none, rest)
  else if 10 < (digits.dropWhile (· == '0')).length then .error .malformedRepetition
  else
    let value := digits.foldl (fun n d => n * 10 + (d.toNat - 48)) 0
    if Nat.pow 2 32 ≤ value then .error .malformedRepetition else .ok (some value, rest)

/-- The bounds of a counted repetition after its brace. -/
def bounds (flags : Flags) (cs : Chars) : Except RegexFault (Nat × Option Nat × Chars) := do
  let (first, rest) ← decimal (skip flags cs)
  let (least, most, rest) ← (match rest with
    | ',' :: rest => do
      match skip flags rest with
      | '\x7d' :: rest => .ok (first, none, '\x7d' :: rest)
      | rest =>
        let (last, rest) ← decimal rest
        match last with
        | none => .error .malformedRepetition
        | some last => .ok (first, some last, rest)
    | rest => .ok (first, first, rest) :
      Except RegexFault (Option Nat × Option Nat × Chars))
  match least, rest with
  | some least, '\x7d' :: rest =>
    if (most.any fun most => most < least) then .error .reversedRepetition
    else .ok (least, most, rest)
  | _, _ => .error .malformedRepetition

/-! ### Groups -/

/-- The flags of a group up to its colon or parenthesis, which is not taken. `seen` holds the
letters so far, `off` says that a dash stands before and `dangling` that it stands last. The letter
`u` is for Unicode mode, which there is not. -/
def flagLetters (flags : Flags) (seen : List Char) (off dangling : Bool) :
    Chars → Except RegexFault (Flags × List Char × Chars)
  | [] => .error .unclosedGroup
  | c :: rest =>
    if c = ':' ∨ c = ')' then
      if dangling then .error .danglingNegation else .ok (flags, seen, c :: rest)
    else if c = '-' then
      if off then .error .repeatedFlag else flagLetters flags ('-' :: seen) true true rest
    else if seen.contains c then .error .repeatedFlag
    else
      let go (flags : Flags) := flagLetters flags (c :: seen) off false rest
      match c with
      | 'i' => go { flags with ignoreCase := !off }
      | 's' => go { flags with dotAll := !off }
      | 'm' => go { flags with multiLine := !off }
      | 'U' => go { flags with swapGreed := !off }
      | 'x' => go { flags with verbose := !off }
      | 'R' => go { flags with returns := !off }
      | 'u' => if off then go flags else .error .unicodeMode
      | _ => .error .unknownFlag

/-- May the character stand in the name of a group? -/
def isNameChar (first : Bool) (c : Char) : Bool :=
  c == '_' || c.isAlpha || 128 ≤ c.toNat ||
    (!first && (c.isDigit || c == '.' || c == '[' || c == ']'))

/-- The name of a group up to its closing bracket. -/
def groupName (cs : Chars) : Except RegexFault (List Char × Chars) :=
  let name := cs.takeWhile (· != '>')
  match cs.drop name.length, name with
  | _ :: rest, first :: others =>
    if isNameChar true first && others.all (isNameChar false) then .ok (name, rest)
    else .error .malformedGroupName
  | _, _ => .error .malformedGroupName

/-- An open group: the flags to return to, whether it captures, and the level around it. -/
structure OpenGroup where
  /-- The flags in force before the group. -/
  flags : Flags
  /-- The group captures. -/
  captures : Bool
  /-- The level around the group. -/
  around : Level

/-- Where a reader of an expression stands. -/
structure State where
  /-- The flags in force. -/
  flags : Flags
  /-- The level being read. -/
  level : Level := {}
  /-- The open groups, the innermost first. -/
  groups : List OpenGroup := []
  /-- The names of groups so far. -/
  names : List (List Char) := []

namespace State

/-- Opens a group inside which the given flags are in force. -/
def openGroup (state : State) (captures : Bool) (flags : Flags) : State :=
  { state with
    flags, level := {}, groups := ⟨state.flags, captures, state.level⟩ :: state.groups }

/-- Adds an item to the level being read. -/
def add (state : State) (item : Item) : State := { state with level := state.level.add item }

/-- Closes the innermost group. -/
def closeGroup (state : State) : Except RegexFault State :=
  match state.groups with
  | [] => .error .unopenedGroup
  | innermost :: outer =>
    let inner := state.level.whole
    let item : Item :=
      { regex := if innermost.captures then .group inner.regex else inner.regex
        depth := inner.depth + 1 }
    .ok { state with
          flags := innermost.flags, level := innermost.around.add item, groups := outer }

end State

/-- What follows an opening parenthesis: a group, or flags for the rest of the level. -/
def groupStart (state : State) (cs : Chars) : Except RegexFault (State × Chars) := do
  let named (rest : Chars) : Except RegexFault (State × Chars) := do
    let (name, rest) ← groupName rest
    if state.names.contains name then .error .duplicateGroupName
    .ok ({ state with names := name :: state.names }.openGroup true state.flags, rest)
  match skip state.flags cs with
  | '?' :: '=' :: _ | '?' :: '!' :: _ => .error .lookAround
  | '?' :: '<' :: '=' :: _ | '?' :: '<' :: '!' :: _ => .error .lookAround
  | '?' :: 'P' :: '<' :: rest => named rest
  | '?' :: '<' :: rest => named rest
  | '?' :: rest =>
    let (flags, seen, rest) ← flagLetters state.flags [] false false rest
    match rest with
    | ')' :: rest =>
      if seen.isEmpty then .error .nothingToRepeat
      else .ok ({ state with flags }.add { regex := .empty, repeatable := false }, rest)
    | _ :: rest => .ok (state.openGroup false flags, rest)
    | [] => .error .unclosedGroup
  | rest => .ok (state.openGroup true state.flags, rest)

/-- One step: what the next character begins. -/
def step (state : State) (c : Char) (rest : Chars) : Except RegexFault (State × Chars) := do
  let counted (least : Nat) (most : Option Nat) (rest : Chars) :
      Except RegexFault (State × Chars) := do
    let (isLazy, rest) := lazyMark rest
    let level ← repeatLast state.flags state.level least most !isLazy
    .ok ({ state with level }, rest)
  match c with
  | '(' => groupStart state rest
  | ')' => .ok (← state.closeGroup, rest)
  | '|' => .ok ({ state with level := state.level.bar }, rest)
  | '[' =>
    let (inner, rest) ← openClass state.flags rest
    let (s, depth, rest) ← classBody state.flags (rest.length + 1) inner rest
    .ok (state.add { regex := .set s, depth }, rest)
  | '?' => counted 0 (some 1) rest
  | '*' => counted 0 none rest
  | '+' => counted 1 none rest
  | '\x7b' =>
    if state.level.items.head?.any Item.repeatable then
      let (least, most, rest) ← bounds state.flags rest
      counted least most (skip state.flags rest)
    else .error .nothingToRepeat
  | '\\' =>
    let (p, rest) ← escape state.flags rest
    .ok (state.add (p.item state.flags), rest)
  | '.' => .ok (state.add { regex := .set (dot state.flags) }, rest)
  | '^' => .ok (state.add { regex := .look (lineStart state.flags) }, rest)
  | '$' => .ok (state.add { regex := .look (lineStop state.flags) }, rest)
  | c => .ok (state.add { regex := literal state.flags c false }, rest)

/-- Takes steps to the end of the expression. The first argument bounds their number. -/
def run : Nat → State → Chars → Except RegexFault State
  | 0, state, _ => .ok state
  | fuel + 1, state, cs =>
    match skip state.flags cs with
    | [] => .ok state
    | c :: rest => do
      let (state, rest) ← step state c rest
      run fuel state rest

end Reader

/-- The pattern that a regular expression describes under the given flags. -/
def parse (flags : Flags) (expression : String) : Except RegexFault Regex := do
  let cs := expression.toList
  let state ← Reader.run (cs.length + 1) { flags } cs
  if !state.groups.isEmpty then .error .unclosedGroup
  let whole := state.level.whole
  if Reader.maxDepth < whole.depth then .error .tooDeep
  .ok whole.regex

end Regex

end PackageScan
