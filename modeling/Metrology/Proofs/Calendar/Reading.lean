import Metrology.Calendar.Timestamp
import Metrology.Proofs.Calendar.Fields
import Metrology.Proofs.Calendar.WallClock

/-!
# Reading back the text of a wall clock

What is written for a wall clock has fields of a fixed width, but for a year outside four
digits, which has a sign in front and any number of digits behind it.  A fraction loses
what lies below a tick.

A text without a mark for universal time is none for the reader of offset date-times.
So what it says is left to the reader of local ones.  A text with the mark is none for
that one, and if its year has a sign, then it is none for either.
-/

namespace Metrology.Calendar

open Text

/-! ## Years -/

/-- A year with a sign in front may have any number of digits. -/
theorem takeDigits_length_paddedDigits (n : Nat) {r : List Char} (hr : NoDigitAhead r) :
    takeDigits 1 (paddedDigits 4 n ++ r).length (paddedDigits 4 n ++ r) = some (n, r) := by
  have least := le_length_paddedDigits 4 n
  rw [takeDigits_append (allDigits_paddedDigits 4 n) (by omega) (by simp), valueOf_paddedDigits]
  rw [List.length_append, Nat.add_sub_cancel_left, List.take_length]
  exact hr

theorem takeYear_minus (n : Nat) {r : List Char} (hr : NoDigitAhead r) :
    takeYear ('-' :: (paddedDigits 4 n ++ r)) = some (-Int.ofNat n, r) := by
  have minus : ¬ isBlank '-' = true := Bool.false_ne_true
  rw [takeYear, trimStart, List.dropWhile_cons_of_neg minus]
  simp only [takeDigits_length_paddedDigits n hr, Option.map_some]

theorem takeYear_plus (n : Nat) {r : List Char} (hr : NoDigitAhead r) :
    takeYear ('+' :: (paddedDigits 4 n ++ r)) = some (Int.ofNat n, r) := by
  have plus : ¬ isBlank '+' = true := Bool.false_ne_true
  rw [takeYear, trimStart, List.dropWhile_cons_of_neg plus]
  simp only [takeDigits_length_paddedDigits n hr, Option.map_some]

theorem takeYear_paddedDigits {n : Nat} (h : n < 10 ^ 4) (r : List Char) :
    takeYear (paddedDigits 4 n ++ r) = some (Int.ofNat n, r) := by
  have year := takeYear_run (.ofNat (Nat.succ_pos 3) h) r
  rwa [Run.value_ofNat] at year

/-- A year is read as it was written, with a sign or without. -/
theorem takeYear_writeYear (year : Int) {r : List Char} (hr : NoDigitAhead r) :
    takeYear (writeYear year ++ r) = some (year, r) := by
  simp only [writeYear]
  by_cases before : year < 0
  · have value : -Int.ofNat year.natAbs = year := by
      rw [Int.ofNat_eq_natCast]
      omega
    rw [if_pos before, List.cons_append, takeYear_minus _ hr, value]
  · have value : Int.ofNat year.natAbs = year := Int.natAbs_of_nonneg (Int.not_lt.mp before)
    rw [if_neg before]
    by_cases after : 9999 < year
    · rw [if_pos after, List.cons_append, takeYear_plus _ hr, value]
    · have bound : year.natAbs < 10 ^ 4 := by omega
      rw [if_neg after, takeYear_paddedDigits bound, value]

theorem writeYear_of_fourDigits {year : Int} (h : 0 ≤ year ∧ year ≤ 9999) :
    writeYear year = paddedDigits 4 year.natAbs := by
  obtain ⟨first, last⟩ := h
  simp only [writeYear]
  rw [if_neg (Int.not_lt.mpr first), if_neg (Int.not_lt.mpr last)]

/-! ## Dates -/

theorem takeField_paddedDigits {n : Nat} (h : n < 10 ^ 2) (r : List Char) :
    takeField (paddedDigits 2 n ++ r) = some (n, r) := by
  have field := takeField_run (.ofNat Nat.two_pos h) r
  rwa [Run.value_ofNat] at field

theorem Date.Exists.lt {d : Date} (h : d.Exists) : d.month < 10 ^ 2 ∧ d.day < 10 ^ 2 := by
  obtain ⟨month, day⟩ := h.bounds
  omega

/-- A date is read as it was written. -/
theorem takeDate_write {d : Date} (h : d.Exists) (r : List Char) :
    takeDate (d.write ++ r) = some (d, r) := by
  have dash (cs : List Char) : NoDigitAhead ('-' :: cs) := noDigitAhead_cons rfl cs
  rw [Date.write]
  simp only [List.append_assoc, List.cons_append]
  refine (bind_of_eq_some (takeYear_writeYear _ (dash _)) _).trans ?_
  refine (bind_of_eq_some (takeChar_cons '-' _) _).trans ?_
  refine (bind_of_eq_some (takeField_paddedDigits h.lt.1 _) _).trans ?_
  refine (bind_of_eq_some (takeChar_cons '-' _) _).trans ?_
  exact bind_of_eq_some (takeField_paddedDigits h.lt.2 _) _

/-- With a year of four digits all fields of a date have a fixed width. -/
theorem takeFixedDate_write {d : Date} (h : d.Exists) (year : 0 ≤ d.year ∧ d.year ≤ 9999)
    (r : List Char) : takeFixedDate (d.write ++ r) = some (d, r) := by
  have bound : d.year.natAbs < 10 ^ 4 := by omega
  let fixed : FixedDate :=
    ⟨.ofNat (Nat.succ_pos 3) bound, .ofNat Nat.two_pos h.lt.1, .ofNat Nat.two_pos h.lt.2⟩
  have text : d.write = fixed.chars := by
    rw [Date.write, writeYear_of_fourDigits year]
    rfl
  have date : fixed.date = d := by
    simp only [fixed, FixedDate.date, Run.value_ofNat, Int.natAbs_of_nonneg year.1]
  rw [text, takeFixedDate_chars, date]

/-! ## Fractions -/

theorem nanosOf_of_length_le {ds : List Char} (h : ds.length ≤ 9) :
    nanosOf ds = valueOf ds * 10 ^ (9 - ds.length) := by
  rw [nanosOf, List.take_of_length_le h, List.rightpad, valueOf_append_zeros]

/-- The zeros that a fraction is written without do not count. -/
theorem nanosOf_dropTrailing {ticks : Nat} (h : ticks < 10 ^ 7) :
    nanosOf (dropTrailing '0' (paddedDigits 7 ticks)) = ticks * 100 := by
  have width := length_paddedDigits (Nat.succ_pos 6) h
  have value := valueOf_paddedDigits 7 ticks
  obtain ⟨n, zeros⟩ := exists_append_dropTrailing '0' (paddedDigits 7 ticks)
  generalize dropTrailing '0' (paddedDigits 7 ticks) = ds at zeros ⊢
  rw [zeros, List.length_append, List.length_replicate] at width
  rw [zeros, valueOf_append_zeros] at value
  have places : 9 - ds.length = n + 2 := by omega
  rw [nanosOf_of_length_le (by omega), places, Nat.pow_add, ← Nat.mul_assoc, value]

/-- A fraction is written as its digits without zeros at the end. -/
theorem writeFraction_eq {nanos : Nat} (h : nanos < nanosPerSecond) :
    writeFraction nanos =
      fractionText (dropTrailing '0' (paddedDigits 7 (nanos / nanosPerTick))) := by
  simp only [nanosPerSecond] at h
  simp only [writeFraction, fractionText, nanosPerTick]
  by_cases none : nanos / 100 = 0
  · rw [none]
    rfl
  · have small : nanos / 100 < 10 ^ 7 := by omega
    have value := nanosOf_dropTrailing small
    have ne : dropTrailing '0' (paddedDigits 7 (nanos / 100)) ≠ [] := by
      intro nil
      rw [nil, show nanosOf [] = 0 from rfl] at value
      omega
    rw [if_neg none, if_neg ne]

/-! ## Clocks -/

/-- The time of a wall clock in fields of a fixed width, cut to a tick. -/
theorem WallClock.exists_fixedTime {w : WallClock} (h : w.Exists) : ∃ t : FixedTime,
    w.write = w.date.write ++ 'T' :: t.chars ∧ t.clock w.date = w.toTick := by
  obtain ⟨-, hour, minute, second, nanos⟩ := h
  have hourLt : w.hour < 10 ^ 2 := by omega
  have minuteLt : w.minute < 10 ^ 2 := by omega
  have secondLt : w.second < 10 ^ 2 := by omega
  have digits := allDigits_dropTrailing '0' (allDigits_paddedDigits 7 (w.nanos / nanosPerTick))
  refine ⟨⟨.ofNat Nat.two_pos hourLt, .ofNat Nat.two_pos minuteLt, .ofNat Nat.two_pos secondLt,
    _, digits⟩, ?_, ?_⟩
  · rw [write, writeFraction_eq nanos]
    simp only [FixedTime.chars, Run.ofNat, List.append_assoc, List.cons_append]
  · have ticks : w.nanos / nanosPerTick < 10 ^ 7 := by
      simp only [nanosPerSecond, nanosPerTick] at nanos ⊢
      omega
    simp only [FixedTime.clock, Run.value_ofNat, toTick, nanosOf_dropTrailing ticks, nanosPerTick]

theorem readLocalDateTime_write_append {w : WallClock} (h : w.Exists) {r : List Char}
    (hr : EndsTime r) :
    readLocalDateTime (w.write ++ r) = (atEnd w.toTick r).bind (·.instant? 0) := by
  obtain ⟨t, text, clock⟩ := WallClock.exists_fixedTime h
  rw [text, List.append_assoc, List.cons_append,
    readLocalDateTime_of_takeDate (takeDate_write h.1 _) hr, clock]

theorem readLocalDateTime_write {w : WallClock} (h : w.Exists) :
    readLocalDateTime w.write = w.toTick.instant? 0 := by
  have whole := readLocalDateTime_write_append h endsTime_nil
  rw [List.append_nil] at whole
  exact whole

/-- The reader of dates refuses what goes on with a time. -/
theorem readDate_write_append {w : WallClock} (h : w.Exists) (r : List Char) :
    readDate (w.write ++ r) = none := by
  obtain ⟨t, text, -⟩ := WallClock.exists_fixedTime h
  rw [text, List.append_assoc, List.cons_append, readDate_of_takeDate (takeDate_write h.1 _)]
  rfl

theorem readOffsetDateTime_write_append {w : WallClock} (h : w.Exists)
    (year : 0 ≤ w.date.year ∧ w.date.year ≤ 9999) {r : List Char} (hr : EndsTime r) :
    readOffsetDateTime (w.write ++ r) =
      (takeOffset r).bind fun p => (atEnd w.toTick p.2).bind (·.instant? p.1) := by
  obtain ⟨t, text, clock⟩ := WallClock.exists_fixedTime h
  rw [text, List.append_assoc, List.cons_append,
    readOffsetDateTime_of_takeFixedDate (takeFixedDate_write h.1 year _) hr, clock]

/-- With a mark for universal time the reader of offset date-times takes the text. -/
theorem readOffsetDateTime_write_mark {w : WallClock} (h : w.Exists)
    (year : 0 ≤ w.date.year ∧ w.date.year ≤ 9999) :
    readOffsetDateTime (w.write ++ ['Z']) = w.toTick.instant? 0 := by
  rw [readOffsetDateTime_write_append h year endsTime_mark]
  rfl

/-- A year with a sign in front is none for that reader. -/
theorem readOffsetDateTime_write_append_of_signed {w : WallClock}
    (year : ¬ (0 ≤ w.date.year ∧ w.date.year ≤ 9999)) (r : List Char) :
    readOffsetDateTime (w.write ++ r) = none := by
  have sign : NoDigitAhead (w.write ++ r) := by
    rw [WallClock.write, Date.write, writeYear]
    by_cases before : w.date.year < 0
    · simp only [if_pos before]
      exact noDigitAhead_cons rfl _
    · have after : 9999 < w.date.year := by omega
      simp only [if_neg before, if_pos after]
      exact noDigitAhead_cons rfl _
  rw [readOffsetDateTime, takeDigits_of_noDigitAhead (Nat.succ_pos 3) 4 sign]
  rfl

end Metrology.Calendar
