/-!
# Dates

Dates of the proleptic Gregorian calendar.  The rules of today hold for all years,
and there is a year zero.

Days are numbered, and day zero is the first of January 1970.  To number them a
year is taken to begin on the first of March, so that its one irregular day comes
last.  Then the start of a year is a sum of floors (`marchStart`), and so is the
start of a month within it (`monthStart`).  Going back, the year is found by taking
out whole cycles of 400, 100 and 4 years and then single years.  The last century
of 400 years and the last year of four are a day longer than the others, so at most
three of either are taken out.
-/

namespace Metrology.Calendar

/-- A day named by year, month and day of the month. -/
structure Date where
  /-- The year. -/
  year : Int
  /-- The month, January being 1. -/
  month : Nat
  /-- The day of the month, from 1 on. -/
  day : Nat
deriving DecidableEq, Repr

/-- Whether a year has a 29th of February. -/
def isLeapYear (year : Int) : Bool := year % 4 == 0 && (year % 100 != 0 || year % 400 == 0)

/-- The number of days of a month.  What is not a month has none. -/
def daysInMonth (year : Int) : Nat → Nat
  | 2 => if isLeapYear year then 29 else 28
  | 4 | 6 | 9 | 11 => 30
  | 1 | 3 | 5 | 7 | 8 | 10 | 12 => 31
  | _ => 0

/-- The day exists. -/
def Date.Exists (d : Date) : Prop := 1 ≤ d.day ∧ d.day ≤ daysInMonth d.year d.month

instance (d : Date) : Decidable d.Exists := inferInstanceAs (Decidable (_ ∧ _))

/-! ## Numbers of days -/

/-- The number of the first of January 1970, counted from the first of March of
year zero. -/
def epochDay : Int := 719468

/-- The first of March of a year, counted from that of year zero. -/
def marchStart (year : Int) : Int := 365 * year + year / 4 - year / 100 + year / 400

/-- The start of a month, counted from the first of March.  March is month zero. -/
def monthStart (month : Nat) : Nat := (153 * month + 2) / 5

/-- The number of a day. -/
def Date.dayNumber (d : Date) : Int :=
  let year := if d.month ≤ 2 then d.year - 1 else d.year
  marchStart year + monthStart ((d.month + 9) % 12) + (d.day - 1) - epochDay

/-- The date with the given number and its year from March to February: `dayOfYear`
counts from the first of March. -/
def Date.ofMarchYear (year : Int) (dayOfYear : Nat) : Date :=
  let month := (5 * dayOfYear + 2) / 153
  let day := dayOfYear - monthStart month + 1
  if month < 10 then ⟨year, month + 3, day⟩ else ⟨year + 1, month - 9, day⟩

/-- The date with the given number. -/
def Date.ofDayNumber (number : Int) : Date :=
  let n := number + epochDay
  let inCycle := (n % 146097).toNat
  let centuries := min (inCycle / 36524) 3
  let inCentury := inCycle - 36524 * centuries
  let fours := inCentury / 1461
  let inFour := inCentury - 1461 * fours
  let years := min (inFour / 365) 3
  Date.ofMarchYear (400 * (n / 146097) + 100 * centuries + 4 * fours + years)
    (inFour - 365 * years)

end Metrology.Calendar
