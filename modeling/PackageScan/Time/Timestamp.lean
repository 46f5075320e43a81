import PackageScan.Decimal.Double
import PackageScan.Text.Blank
import PackageScan.Time.Date

/-!
# Points in time

A point in time is a date and a time of day in Coordinated Universal Time; the second 60 is a
leap second. It is written in the form of RFC 3339 with the letter Z and as many digits of the
fraction as needed, in steps of three.

`Timestamp.parse?` is more generous: components may have white space between them, a fraction may
have any number of digits, of which nine count, and the time may be given at any offset below a
day.
-/

namespace PackageScan

/-- A point in time. -/
structure Timestamp where
  /-- The date. -/
  date : Date
  /-- The hour. -/
  hour : Nat
  /-- The minute. -/
  minute : Nat
  /-- The second, 60 being a leap second. -/
  second : Nat
  /-- The fraction of the second in thousand millionths. -/
  nano : Nat
  deriving DecidableEq, Repr

namespace Timestamp

/-- The point in time so many seconds, and so many thousand millionths of one, after the start of
the year 1970. -/
def ofUnix (seconds nano : Nat) : Timestamp where
  date := .ofEpochDay (seconds / 86400)
  hour := seconds % 86400 / 3600
  minute := seconds % 3600 / 60
  second := seconds % 60
  nano := nano

/-- The start of the year 1970. -/
def epoch : Timestamp := ⟨⟨1970, 1, 1⟩, 0, 0, 0, 0⟩

/-! ### Writing -/

/-- A number with zeros in front up to the given width. -/
def padded (width n : Nat) : String :=
  let digits := Nat.repr n
  "".pushn '0' (width - digits.length) ++ digits

/-- A year: four digits, or a sign and at least four where they do not do. -/
def renderYear (year : Int) : String :=
  if 0 ≤ year ∧ year ≤ 9999 then padded 4 year.toNat
  else (if year < 0 then "-" else "+") ++ padded 4 year.natAbs

/-- The fraction of a second: nothing, or three, six or nine digits. -/
def renderFraction (nano : Nat) : String :=
  if nano = 0 then ""
  else if nano % 1000000 = 0 then "." ++ padded 3 (nano / 1000000)
  else if nano % 1000 = 0 then "." ++ padded 6 (nano / 1000)
  else "." ++ padded 9 nano

/-- The written form. -/
def render (t : Timestamp) : String :=
  s!"{renderYear t.date.year}-{padded 2 t.date.month}-{padded 2 t.date.day}T" ++
    s!"{padded 2 t.hour}:{padded 2 t.minute}:{padded 2 t.second}{renderFraction t.nano}Z"

/-! ### Reading -/

/-- The text after its leading white space. -/
def skipBlank (cs : List Char) : List Char := cs.dropWhile Text.isBlank

/-- A number of at most the given number of digits, after white space. -/
def number? (width : Nat) (cs : List Char) : Option (Nat × List Char) :=
  let cs := skipBlank cs
  match (cs.take width).takeWhile Char.isDigit with
  | [] => none
  | ds => some (Decimal.value ds, cs.drop ds.length)

/-- A year: up to four digits, or a sign and any number of them. -/
def year? (cs : List Char) : Option (Int × List Char) :=
  match skipBlank cs with
  | c :: rest =>
    if c = '-' || c = '+' then
      match rest.takeWhile Char.isDigit with
      | [] => none
      | ds =>
        let n : Int := Decimal.value ds
        some (if c = '-' then -n else n, rest.drop ds.length)
    else (number? 4 (c :: rest)).map fun (n, rest) => (n, rest)
  | [] => none

/-- The text after a mark, which may have white space before it. -/
def mark? (c : Char) (cs : List Char) : Option (List Char) :=
  match skipBlank cs with
  | d :: rest => if d = c then some rest else none
  | [] => none

/-- The fraction of a second, of which the first nine digits count. -/
def fraction? (cs : List Char) : Option (Nat × List Char) :=
  match cs with
  | '.' :: rest =>
    match (rest.take 9).takeWhile Char.isDigit with
    | [] => none
    | ds =>
      some (Decimal.value ds * Nat.pow 10 (9 - ds.length),
        (rest.drop ds.length).dropWhile Char.isDigit)
  | _ => some (0, cs)

/-- Two digits and the rest. -/
def twoDigits? : List Char → Option (Nat × List Char)
  | a :: b :: rest => if a.isDigit && b.isDigit then some (Decimal.value [a, b], rest) else none
  | _ => none

/-- Minutes after a sign, of hours and minutes with colons or white space between them. -/
def offsetSize? (cs : List Char) : Option (Nat × List Char) := do
  let (hours, rest) ← twoDigits? cs
  let (minutes, rest) ← twoDigits? (rest.dropWhile fun c => c == ':' || Text.isBlank c)
  if minutes < 60 ∧ hours < 24 then some (hours * 60 + minutes, rest) else none

/-- The offset from universal time in minutes: a letter, three letters, or a sign and a size. -/
def offset? (cs : List Char) : Option (Int × List Char) :=
  match cs with
  | [] => none
  | c :: rest =>
    if (String.ofList (cs.take 3)).toLower == "utc" then some (0, cs.drop 3)
    else if c = 'Z' || c = 'z' then some (0, rest)
    else if c = '+' then (offsetSize? rest).map fun (n, rest) => (n, rest)
    else if c = '-' || c = '\u2212' then (offsetSize? rest).map fun (n, rest) => (-(n : Int), rest)
    else none

/-- The time at an offset of so many minutes, if its date is valid. -/
def atOffset? (t : Timestamp) (offset : Int) : Option Timestamp :=
  let minutes : Int := t.hour * 60 + t.minute - offset
  let date :=
    if minutes < 0 then t.date.previous else if 1440 ≤ minutes then t.date.next else t.date
  let ofDay := (minutes % 1440).toNat
  if date.isValid then some { t with date, hour := ofDay / 60, minute := ofDay % 60 } else none

/-- A date: a year, a month and a day with dashes between them. -/
def date? (cs : List Char) : Option (Date × List Char) := do
  let (year, cs) ← year? cs
  let (month, cs) ← number? 2 (← mark? '-' cs)
  let (day, cs) ← number? 2 (← mark? '-' cs)
  some (⟨year, month, day⟩, cs)

/-- The text after the letter or the space that stands between a date and a time of day. -/
def timeMark? : List Char → Option (List Char)
  | c :: rest => if c = 'T' || c = 't' || c = ' ' then some rest else none
  | [] => none

/-- A time of the given date: hours, minutes and seconds with colons between them, and the fraction
of the second. -/
def timeOf? (date : Date) (cs : List Char) : Option (Timestamp × List Char) := do
  let (hour, cs) ← number? 2 cs
  let (minute, cs) ← number? 2 (← mark? ':' cs)
  let (second, cs) ← number? 2 (← mark? ':' cs)
  let (nano, cs) ← fraction? cs
  some ({ date, hour, minute, second, nano }, cs)

/-- The point in time that a text writes. -/
def parse? (text : String) : Option Timestamp := do
  let (date, cs) ← date? text.toList
  let (written, cs) ← timeOf? date (← timeMark? cs)
  let (offset, cs) ← offset? (skipBlank cs)
  if (skipBlank cs).isEmpty && date.isValid && written.hour < 24 && written.minute < 60 &&
      written.second ≤ 60 then
    written.atOffset? offset
  else none

end Timestamp

end PackageScan
