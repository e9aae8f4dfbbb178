import Metrology.Calendar.Reading
import Metrology.Proofs.Text.Digits

/-!
# Fields of dates and times

The fields of an offset date-time have a fixed width.  Those of a local date-time and of
a date may have fewer digits, blanks in front and a sign.  But what is read as a field of
fixed width is read as the same field where more is allowed.  So a text that starts like
an offset date-time starts like a local one, with the same date and the same time
(`takeDate_of_takeFixedDate`, `takeLocalTime_of_takeFixedTime`).  The readers part company
only behind the date, and behind the time.

A `FixedDate` and a `FixedTime` are texts of such fields.  They need not name a day or a
time that exists.
-/

namespace Metrology.Calendar

open Text

/-- One step of a reader. -/
theorem bind_of_eq_some {o : Option α} {a : α} (h : o = some a) (next : α → Option β) :
    (o >>= next) = next a := by
  rw [h]
  rfl

/-! ## Fields -/

theorem trimStart_append_of_allDigits {ds : List Char} (hds : AllDigits ds) (ne : ds ≠ [])
    (r : List Char) : trimStart (ds ++ r) = ds ++ r := by
  cases ds with
  | nil => exact absurd rfl ne
  | cons d ds =>
      have keep : ¬ isBlank d = true := by
        simp [isBlank_eq_false_of_isDigit (hds d List.mem_cons_self)]
      exact List.dropWhile_cons_of_neg keep

theorem takeYear_of_allDigits {ds : List Char} (hds : AllDigits ds) (ne : ds ≠ [])
    (r : List Char) :
    takeYear (ds ++ r) = (takeDigits 1 4 (ds ++ r)).map fun p => (Int.ofNat p.1, p.2) := by
  rw [takeYear, trimStart_append_of_allDigits hds ne]
  cases ds with
  | nil => exact absurd rfl ne
  | cons d ds =>
      have digit := hds d List.mem_cons_self
      rw [List.cons_append]
      split
      · next plus =>
        cases plus
        cases digit
      · next minus =>
        cases minus
        cases digit
      · rfl

/-- A field of two digits is taken as its value. -/
theorem takeField_run (ds : Run 2) (r : List Char) :
    takeField (ds.chars ++ r) = some (ds.value, r) := by
  rw [takeField, trimStart_append_of_allDigits ds.allDigits (ds.ne_nil Nat.two_pos),
    takeDigits_run (by decide) ds]

/-- A year of four digits is taken as its value. -/
theorem takeYear_run (ds : Run 4) (r : List Char) :
    takeYear (ds.chars ++ r) = some (Int.ofNat ds.value, r) := by
  rw [takeYear_of_allDigits ds.allDigits (ds.ne_nil (Nat.succ_pos 3)),
    takeDigits_run (by decide) ds, Option.map_some]

/-- What the strict field takes the lenient one takes too. -/
theorem takeField_of_takeDigits {n : Nat} {cs r : List Char}
    (h : takeDigits 2 2 cs = some (n, r)) : takeField cs = some (n, r) := by
  obtain ⟨ds, rfl, rfl⟩ := exists_run_of_takeDigits h
  exact takeField_run ds r

/-- What the strict year takes the lenient one takes too. -/
theorem takeYear_of_takeDigits {n : Nat} {cs r : List Char}
    (h : takeDigits 4 4 cs = some (n, r)) : takeYear cs = some (Int.ofNat n, r) := by
  obtain ⟨ds, rfl, rfl⟩ := exists_run_of_takeDigits h
  exact takeYear_run ds r

/-! ## Years -/

/-- A sign or not, digits, and a hyphen behind them. -/
def StartsWithYear (cs : List Char) : Prop :=
  (spanDigits (takeSign cs).2).1 ≠ [] ∧ '-' ∈ (spanDigits (takeSign cs).2).2.head?

instance : DecidablePred StartsWithYear := fun _ => inferInstanceAs (Decidable (_ ∧ _))

theorem startsWithYear_of_takeSign {cs ds r : List Char} (h : (takeSign cs).2 = ds ++ '-' :: r)
    (hds : AllDigits ds) (ne : ds ≠ []) : StartsWithYear cs := by
  have dash : '-'.isDigit = false := rfl
  rw [StartsWithYear, h, spanDigits_append hds (noDigitAhead_cons dash r)]
  exact ⟨ne, rfl⟩

/-- What a year takes from a text without blanks in front is a sign or none, and digits. -/
theorem exists_of_takeYear {cs r : List Char} {year : Int} (front : trimStart cs = cs)
    (h : takeYear cs = some (year, r)) :
    ∃ ds, (takeSign cs).2 = ds ++ r ∧ AllDigits ds ∧ ds ≠ [] := by
  have field {most : Nat} {f : Nat → Int} {cs : List Char}
      (h : (takeDigits 1 most cs).map (fun p => (f p.1, p.2)) = some (year, r)) :
      ∃ ds, cs = ds ++ r ∧ AllDigits ds ∧ ds ≠ [] := by
    obtain ⟨⟨n, r'⟩, taken, result⟩ := Option.map_eq_some_iff.mp h
    cases result
    obtain ⟨ds, text, digits, least, -⟩ := exists_of_takeDigits taken
    exact ⟨ds, text, digits, List.length_pos_iff.mp least⟩
  rw [takeYear, front] at h
  split at h
  next => exact field h
  next => exact field (f := fun n => -Int.ofNat n) h
  next plus minus =>
    have none : (takeSign cs).2 = cs := by
      rw [takeSign]
      · exact plus
      · exact minus
    rw [none]
    exact field h

/-- A date starts with a year. -/
theorem startsWithYear_of_takeDate {cs : List Char} {p : Date × List Char}
    (front : trimStart cs = cs) (h : takeDate cs = some p) : StartsWithYear cs := by
  simp only [takeDate, Option.bind_eq_bind, Option.bind_eq_some_iff] at h
  obtain ⟨⟨year, r⟩, first, r', dash, -⟩ := h
  obtain ⟨ds, text, digits, ne⟩ := exists_of_takeYear front first
  cases takeChar_eq_some_iff.mp dash
  exact startsWithYear_of_takeSign text digits ne

/-! ## Dates and times -/

/-- Reads the date of an offset date-time. -/
def takeFixedDate (cs : List Char) : Option (Date × List Char) := do
  let (year, cs) ← takeDigits 4 4 cs
  let cs ← takeChar '-' cs
  let (month, cs) ← takeDigits 2 2 cs
  let cs ← takeChar '-' cs
  let (day, cs) ← takeDigits 2 2 cs
  return (⟨year, month, day⟩, cs)

/-- Reads the time of an offset date-time on the given date. -/
def takeFixedTime (date : Date) (cs : List Char) : Option (WallClock × List Char) := do
  let (hour, cs) ← takeDigits 2 2 cs
  let cs ← takeChar ':' cs
  let (minute, cs) ← takeDigits 2 2 cs
  let cs ← takeChar ':' cs
  let (second, cs) ← takeDigits 2 2 cs
  let (nanos, cs) ← takeFraction cs
  return (⟨date, hour, minute, second, nanos⟩, cs)

/-- Reads the time of a local date-time on the given date. -/
def takeLocalTime (date : Date) (cs : List Char) : Option (WallClock × List Char) := do
  let (hour, cs) ← takeField cs
  let cs ← takeChar ':' cs
  let (minute, cs) ← takeField cs
  let cs ← takeChar ':' cs
  let (second, cs) ← takeField cs
  let (nanos, cs) ← takeFraction cs
  return (⟨date, hour, minute, second, nanos⟩, cs)

/-- A date of fixed fields is a date where more is allowed. -/
theorem takeDate_of_takeFixedDate {cs : List Char} {p : Date × List Char}
    (h : takeFixedDate cs = some p) : takeDate cs = some p := by
  simp only [takeFixedDate, Option.bind_eq_bind, Option.bind_eq_some_iff] at h
  obtain ⟨_, year, _, dash, _, month, _, dash', _, day, result⟩ := h
  refine (bind_of_eq_some (takeYear_of_takeDigits year) _).trans ?_
  refine (bind_of_eq_some dash _).trans ?_
  refine (bind_of_eq_some (takeField_of_takeDigits month) _).trans ?_
  refine (bind_of_eq_some dash' _).trans ?_
  exact (bind_of_eq_some (takeField_of_takeDigits day) _).trans result

/-- A time of fixed fields is a time where more is allowed. -/
theorem takeLocalTime_of_takeFixedTime {date : Date} {cs : List Char}
    {p : WallClock × List Char} (h : takeFixedTime date cs = some p) :
    takeLocalTime date cs = some p := by
  simp only [takeFixedTime, Option.bind_eq_bind, Option.bind_eq_some_iff] at h
  obtain ⟨_, hour, _, colon, _, minute, _, colon', _, second, rest⟩ := h
  refine (bind_of_eq_some (takeField_of_takeDigits hour) _).trans ?_
  refine (bind_of_eq_some colon _).trans ?_
  refine (bind_of_eq_some (takeField_of_takeDigits minute) _).trans ?_
  refine (bind_of_eq_some colon' _).trans ?_
  refine (bind_of_eq_some (takeField_of_takeDigits second) _).trans ?_
  exact Option.bind_eq_some_iff.mpr rest

/-! ## The readers by date and time -/

theorem readOffsetDateTime_eq (cs : List Char) : readOffsetDateTime cs = (do
    let (date, cs) ← takeFixedDate cs
    let cs ← takeSeparator cs
    let (clock, cs) ← takeFixedTime date cs
    let (offset, cs) ← takeOffset cs
    let clock ← atEnd clock cs
    clock.instant? offset) := by
  simp only [readOffsetDateTime, takeFixedDate, takeFixedTime, bind_assoc, pure_bind]

theorem readLocalDateTime_eq (cs : List Char) : readLocalDateTime cs = (do
    let (date, cs) ← takeDate cs
    let cs ← takeChar 'T' cs
    let (clock, cs) ← takeLocalTime date cs
    let clock ← atEnd clock cs
    clock.instant? 0) := by
  simp only [readLocalDateTime, takeLocalTime, bind_assoc, pure_bind]

/-! ## Texts of fixed fields -/

/-- A date in four digits for the year and two for month and day. -/
structure FixedDate where
  /-- The year. -/
  year : Run 4
  /-- The month. -/
  month : Run 2
  /-- The day of the month. -/
  day : Run 2

/-- The text of a fraction with these digits.  Without a digit there is no point. -/
def fractionText (ds : List Char) : List Char := if ds = [] then [] else '.' :: ds

/-- A time in two digits for each field, and a fraction of any length. -/
structure FixedTime where
  /-- The hour. -/
  hour : Run 2
  /-- The minute. -/
  minute : Run 2
  /-- The second. -/
  second : Run 2
  /-- The digits of the fraction. -/
  fraction : List Char
  allDigits_fraction : AllDigits fraction

namespace FixedDate

/-- The text of a date. -/
def chars (d : FixedDate) : List Char :=
  d.year.chars ++ '-' :: d.month.chars ++ '-' :: d.day.chars

/-- The date that a text says. -/
def date (d : FixedDate) : Date := ⟨d.year.value, d.month.value, d.day.value⟩

end FixedDate

namespace FixedTime

/-- The text of a time. -/
def chars (t : FixedTime) : List Char :=
  t.hour.chars ++ ':' :: t.minute.chars ++ ':' :: t.second.chars ++ fractionText t.fraction

/-- What a clock shows on a date at the time that a text says. -/
def clock (t : FixedTime) (date : Date) : WallClock :=
  ⟨date, t.hour.value, t.minute.value, t.second.value, nanosOf t.fraction⟩

end FixedTime

/-- A date of fixed width is taken as it is. -/
theorem takeFixedDate_chars (d : FixedDate) (r : List Char) :
    takeFixedDate (d.chars ++ r) = some (d.date, r) := by
  rw [FixedDate.chars]
  simp only [List.append_assoc, List.cons_append]
  refine (bind_of_eq_some (takeDigits_run (Nat.le_refl _) d.year _) _).trans ?_
  refine (bind_of_eq_some (takeChar_cons '-' _) _).trans ?_
  refine (bind_of_eq_some (takeDigits_run (Nat.le_refl _) d.month _) _).trans ?_
  refine (bind_of_eq_some (takeChar_cons '-' _) _).trans ?_
  exact bind_of_eq_some (takeDigits_run (Nat.le_refl _) d.day _) _

/-- The lenient reader of dates takes it too. -/
theorem takeDate_chars (d : FixedDate) (r : List Char) :
    takeDate (d.chars ++ r) = some (d.date, r) :=
  takeDate_of_takeFixedDate (takeFixedDate_chars d r)

/-- A text that goes on neither with a digit nor with a point. -/
def EndsTime (r : List Char) : Prop := NoDigitAhead r ∧ '.' ∉ r.head?

theorem endsTime_nil : EndsTime [] := ⟨noDigitAhead_nil, Option.not_mem_none '.'⟩

theorem endsTime_cons {c : Char} (digit : c.isDigit = false) (point : c ≠ '.') (r : List Char) :
    EndsTime (c :: r) := by
  refine ⟨noDigitAhead_cons digit r, fun mem => ?_⟩
  exact point (Option.mem_some.mp mem)

theorem endsTime_mark : EndsTime ['Z'] := endsTime_cons rfl (by decide) []

/-- A fraction is taken up to where the time ends. -/
theorem takeFraction_fractionText {ds r : List Char} (hds : AllDigits ds) (hr : EndsTime r) :
    takeFraction (fractionText ds ++ r) = some (nanosOf ds, r) := by
  obtain ⟨digit, point⟩ := hr
  rw [fractionText]
  by_cases none : ds = []
  · rw [if_pos none, none, List.nil_append, takeFraction]
    · rfl
    · rintro cs rfl
      exact point rfl
  · rw [if_neg none, List.cons_append, takeFraction]
    simp only [spanDigits_append hds digit, List.isEmpty_iff, none, if_false]

/-- A time of fixed width is taken as it is. -/
theorem takeFixedTime_chars (t : FixedTime) (date : Date) {r : List Char} (hr : EndsTime r) :
    takeFixedTime date (t.chars ++ r) = some (t.clock date, r) := by
  rw [FixedTime.chars]
  simp only [List.append_assoc, List.cons_append]
  refine (bind_of_eq_some (takeDigits_run (Nat.le_refl _) t.hour _) _).trans ?_
  refine (bind_of_eq_some (takeChar_cons ':' _) _).trans ?_
  refine (bind_of_eq_some (takeDigits_run (Nat.le_refl _) t.minute _) _).trans ?_
  refine (bind_of_eq_some (takeChar_cons ':' _) _).trans ?_
  refine (bind_of_eq_some (takeDigits_run (Nat.le_refl _) t.second _) _).trans ?_
  exact bind_of_eq_some (takeFraction_fractionText t.allDigits_fraction hr) _

/-- The lenient reader of times takes it too. -/
theorem takeLocalTime_chars (t : FixedTime) (date : Date) {r : List Char} (hr : EndsTime r) :
    takeLocalTime date (t.chars ++ r) = some (t.clock date, r) :=
  takeLocalTime_of_takeFixedTime (takeFixedTime_chars t date hr)

/-! ## The readers on fixed fields -/

theorem takeSeparator_mark (cs : List Char) : takeSeparator ('T' :: cs) = some cs := by
  rw [takeSeparator, if_pos (.inl rfl)]

section

variable {cs r : List Char} {date : Date} {t : FixedTime}

/-- Behind the time an offset must follow, and nothing else. -/
theorem readOffsetDateTime_of_takeFixedDate
    (h : takeFixedDate cs = some (date, 'T' :: (t.chars ++ r))) (hr : EndsTime r) :
    readOffsetDateTime cs =
      (takeOffset r).bind fun p => (atEnd (t.clock date) p.2).bind (·.instant? p.1) := by
  rw [readOffsetDateTime_eq]
  refine (bind_of_eq_some h _).trans ?_
  refine (bind_of_eq_some (takeSeparator_mark _) _).trans ?_
  exact bind_of_eq_some (takeFixedTime_chars t date hr) _

/-- Behind the time nothing must follow. -/
theorem readLocalDateTime_of_takeDate
    (h : takeDate cs = some (date, 'T' :: (t.chars ++ r))) (hr : EndsTime r) :
    readLocalDateTime cs = (atEnd (t.clock date) r).bind (·.instant? 0) := by
  rw [readLocalDateTime_eq]
  refine (bind_of_eq_some h _).trans ?_
  refine (bind_of_eq_some (takeChar_cons 'T' _) _).trans ?_
  exact bind_of_eq_some (takeLocalTime_chars t date hr) _

/-- Behind the date nothing must follow. -/
theorem readDate_of_takeDate (h : takeDate cs = some (date, r)) :
    readDate cs = (atEnd (WallClock.mk date 0 0 0 0) r).bind (·.instant? 0) :=
  bind_of_eq_some h _

end

end Metrology.Calendar
