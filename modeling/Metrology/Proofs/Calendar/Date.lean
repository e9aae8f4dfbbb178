import Metrology.Calendar.Date

/-!
# Dates and their numbers

Every number of a day is that of a date, and the date exists.

A number falls apart into cycles of 400 years, centuries, groups of four years,
years and days.  The parts are what `Date.ofDayNumber` takes out (`DayParts`).  The
day 365 of a year that begins in March is a 29th of February, and there it is the
parts that say that the year is a leap year.
-/

namespace Metrology.Calendar

/-! ## The parts of a number of a day -/

/-- The parts of a day that is counted from the first of March of year zero. -/
structure DayParts where
  /-- Cycles of 400 years. -/
  cycles : Int
  /-- Centuries of the cycle. -/
  centuries : Nat
  /-- Groups of four years of the century. -/
  fours : Nat
  /-- Years of the group. -/
  years : Nat
  /-- Days of the year. -/
  days : Nat
  centuries_le : centuries ≤ 3
  fours_le : fours ≤ 24
  years_le : years ≤ 3
  days_le : days ≤ 365
  /-- Only the last year of four is long, and not the last one of a century, unless
  the century is the last one of a cycle. -/
  long : days = 365 → years = 3 ∧ (fours = 24 → centuries = 3)

namespace DayParts

/-- The year that the day falls into, if years begin in March. -/
def year (p : DayParts) : Int := 400 * p.cycles + 100 * p.centuries + 4 * p.fours + p.years

/-- The number of the day, counted from the first of March of year zero. -/
def number (p : DayParts) : Int :=
  146097 * p.cycles + 36524 * p.centuries + 1461 * p.fours + 365 * p.years + p.days

theorem marchStart_year_add_days (p : DayParts) : marchStart p.year + p.days = p.number := by
  obtain ⟨cycles, centuries, fours, years, days, hc, hf, hy, -, -⟩ := p
  simp only [marchStart, year, number]
  omega

/-- The 29th of February exists where it is needed. -/
theorem isLeapYear_of_long (p : DayParts) (h : p.days = 365) : isLeapYear (p.year + 1) := by
  obtain ⟨years, fours⟩ := p.long h
  have hf := p.fours_le
  have hc := p.centuries_le
  have four : (p.year + 1) % 4 = 0 := by
    rw [year]
    omega
  have century : (p.year + 1) % 100 ≠ 0 ∨ (p.year + 1) % 400 = 0 := by
    rw [year]
    omega
  simp only [isLeapYear, Bool.and_eq_true, Bool.or_eq_true, beq_iff_eq, bne_iff_ne]
  exact ⟨four, century⟩

end DayParts

/-- The parts that `Date.ofDayNumber` takes out. -/
theorem exists_dayParts (number : Int) : ∃ p : DayParts,
    Date.ofDayNumber number = Date.ofMarchYear p.year p.days ∧ p.number = number + epochDay := by
  let n := number + epochDay
  let inCycle := (n % 146097).toNat
  let centuries := min (inCycle / 36524) 3
  let inCentury := inCycle - 36524 * centuries
  let fours := inCentury / 1461
  let inFour := inCentury - 1461 * fours
  let years := min (inFour / 365) 3
  have hn : n = 146097 * (n / 146097) + inCycle ∧ inCycle < 146097 := by omega
  -- The last century of a cycle and the last year of four may leave one day more.
  have hcentury : inCycle = 36524 * centuries + inCentury ∧
      (inCentury < 36524 ∨ centuries = 3 ∧ inCentury ≤ 36524) := by omega
  have hfour : inCentury = 1461 * fours + inFour ∧ inFour < 1461 := by omega
  have hyear : inFour = 365 * years + (inFour - 365 * years) ∧
      (inFour - 365 * years < 365 ∨ years = 3 ∧ inFour - 365 * years = 365) := by omega
  refine ⟨⟨n / 146097, centuries, fours, years, inFour - 365 * years, ?_, ?_, ?_, ?_, ?_⟩,
    rfl, ?_⟩
  · omega
  · omega
  · omega
  · omega
  · omega
  · simp only [DayParts.number]
    omega

/-! ## Dates that exist -/

theorem daysInMonth_le (year : Int) (month : Nat) : daysInMonth year month ≤ 31 := by
  unfold daysInMonth
  split
  · split <;> omega
  all_goals omega

theorem daysInMonth_of_lt (year : Int) {month : Nat} (h : 12 < month) :
    daysInMonth year month = 0 := by
  unfold daysInMonth
  split
  all_goals omega

/-- The months and days that exist have two digits. -/
theorem Date.Exists.bounds {d : Date} (h : d.Exists) : d.month ≤ 12 ∧ d.day ≤ 31 := by
  obtain ⟨first, last⟩ := h
  refine ⟨?_, Nat.le_trans last (daysInMonth_le d.year d.month)⟩
  refine Nat.not_lt.mp fun late => ?_
  rw [daysInMonth_of_lt d.year late] at last
  omega

/-! ## The date with given parts -/

/-- The month that a day falls into, counted from March, and the day of that month. -/
theorem monthStart_month {dayOfYear : Nat} (h : dayOfYear ≤ 365) :
    let month := (5 * dayOfYear + 2) / 153
    month ≤ 11 ∧ monthStart month ≤ dayOfYear ∧ dayOfYear < monthStart (month + 1) := by
  simp only [monthStart]
  omega

/-- A day that is counted from the first of March has the number that the count says. -/
theorem dayNumber_ofMarchYear (year : Int) {dayOfYear : Nat} (h : dayOfYear ≤ 365) :
    (Date.ofMarchYear year dayOfYear).dayNumber = marchStart year + dayOfYear - epochDay := by
  obtain ⟨le, start, -⟩ := monthStart_month h
  rw [Date.ofMarchYear]
  generalize (5 * dayOfYear + 2) / 153 = month at le start ⊢
  by_cases early : month < 10
  · rw [if_pos early, Date.dayNumber]
    have index : (month + 3 + 9) % 12 = month := by omega
    simp only [index, if_neg (show ¬ month + 3 ≤ 2 by omega)]
    omega
  · rw [if_neg early, Date.dayNumber]
    have index : (month - 9 + 9) % 12 = month := by omega
    simp only [index, if_pos (show month - 9 ≤ 2 by omega), Int.add_sub_cancel]
    omega

/-- The months from March to December have their usual lengths. -/
theorem monthStart_succ (year : Int) : ∀ {month : Nat}, month < 10 →
    monthStart (month + 1) = monthStart month + daysInMonth year (month + 3)
  | 0, _ | 1, _ | 2, _ | 3, _ | 4, _ | 5, _ | 6, _ | 7, _ | 8, _ | 9, _ => rfl

theorem exists_ofMarchYear {year : Int} {dayOfYear : Nat} (h : dayOfYear ≤ 365)
    (long : dayOfYear = 365 → isLeapYear (year + 1)) :
    (Date.ofMarchYear year dayOfYear).Exists := by
  obtain ⟨le, start, stop⟩ := monthStart_month h
  rw [Date.ofMarchYear]
  generalize (5 * dayOfYear + 2) / 153 = month at le start stop ⊢
  by_cases early : month < 10
  · rw [if_pos early]
    have length := monthStart_succ year early
    exact ⟨by simp, by simp only; omega⟩
  · rw [if_neg early]
    have late : month = 10 ∨ month = 11 := by omega
    rcases late with rfl | rfl
    · have january : monthStart 10 = 306 ∧ monthStart (10 + 1) = 337 := ⟨rfl, rfl⟩
      have length : daysInMonth (year + 1) (10 - 9) = 31 := rfl
      exact ⟨by simp, by simp only [length]; omega⟩
    · have february : monthStart 11 = 337 := rfl
      have length : daysInMonth (year + 1) (11 - 9) =
          if isLeapYear (year + 1) then 29 else 28 := rfl
      refine ⟨by simp, ?_⟩
      simp only [length]
      by_cases last : dayOfYear = 365
      · rw [if_pos (long last)]
        omega
      · split <;> omega

/-! ## The date of a number -/

/-- The date of a day number has that number. -/
theorem dayNumber_ofDayNumber (number : Int) : (Date.ofDayNumber number).dayNumber = number := by
  obtain ⟨p, date, parts⟩ := exists_dayParts number
  rw [date, dayNumber_ofMarchYear p.year p.days_le, p.marchStart_year_add_days, parts,
    Int.add_sub_cancel]

theorem exists_ofDayNumber (number : Int) : (Date.ofDayNumber number).Exists := by
  obtain ⟨p, date, -⟩ := exists_dayParts number
  rw [date]
  exact exists_ofMarchYear p.days_le p.isLeapYear_of_long

end Metrology.Calendar
