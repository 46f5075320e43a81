/-!
# Dates

Dates of the Gregorian calendar, extended to all years, with the year before year one counted as
zero. `Date.next` and `Date.previous` step from day to day.
-/

namespace PackageScan

/-- A date. -/
structure Date where
  /-- The year, negative before the year zero. -/
  year : Int
  /-- The month, January being one. -/
  month : Nat
  /-- The day of the month, the first being one. -/
  day : Nat
  deriving DecidableEq, Repr

namespace Date

/-- Does the year have a 29th of February? -/
def isLeapYear (year : Int) : Bool :=
  year % 4 == 0 && (year % 100 != 0 || year % 400 == 0)

/-- Number of days of a month. -/
def daysIn (year : Int) (month : Nat) : Nat :=
  if month = 2 then if isLeapYear year then 29 else 28
  else if month = 4 ∨ month = 6 ∨ month = 9 ∨ month = 11 then 30
  else 31

/-- First year that is counted. -/
def firstYear : Int := -262143

/-- Last year that is counted. -/
def lastYear : Int := 262142

/-- Does the calendar have the date, and is its year counted? -/
def isValid (d : Date) : Bool :=
  decide (firstYear ≤ d.year) && decide (d.year ≤ lastYear) && decide (1 ≤ d.month) &&
    decide (d.month ≤ 12) && decide (1 ≤ d.day) && decide (d.day ≤ daysIn d.year d.month)

/-- The day after. -/
def next (d : Date) : Date :=
  if d.day < daysIn d.year d.month then { d with day := d.day + 1 }
  else if d.month < 12 then { d with month := d.month + 1, day := 1 }
  else ⟨d.year + 1, 1, 1⟩

/-- The day before. -/
def previous (d : Date) : Date :=
  if 1 < d.day then { d with day := d.day - 1 }
  else if 1 < d.month then ⟨d.year, d.month - 1, daysIn d.year (d.month - 1)⟩
  else ⟨d.year - 1, 12, 31⟩

/-- The date so many days after the first of January 1970. Years are counted from March on, in
cycles of 400 years, so that a leap day ends its year. -/
def ofEpochDay (days : Nat) : Date :=
  let shifted := days + 719468
  let cycle := shifted / 146097
  let ofCycle := shifted % 146097
  let yearOfCycle := (ofCycle - ofCycle / 1460 + ofCycle / 36524 - ofCycle / 146096) / 365
  let ofYear := ofCycle - (365 * yearOfCycle + yearOfCycle / 4 - yearOfCycle / 100)
  let marchMonth := (5 * ofYear + 2) / 153
  let day := ofYear - (153 * marchMonth + 2) / 5 + 1
  let month := if marchMonth < 10 then marchMonth + 3 else marchMonth - 9
  ⟨yearOfCycle + cycle * 400 + if month ≤ 2 then 1 else 0, month, day⟩

end Date

end PackageScan
