import Metrology.Proofs.Calendar.Reading

/-!
# Timestamps and their text

The text of a timestamp is read as its instant as it is shown, cut to a tick.  The two
kinds go through two readers.  That of offset date-times is tried first.  It takes instants of
universal time, and for that their year must have four digits.  It refuses readings
of a wall clock, which go to the reader of local date-times, whatever their year.  An
instant of universal time in another year is read by no one.

The text is the same for two timestamps of one kind that are shown in one tick, and for
no others.
-/

namespace Metrology.Calendar

open Text

/-! ## Characters -/

/-- What stands between the digits of a wall clock. -/
def WallClock.marks : List Char := ['+', '-', 'T', ':', '.']

theorem digitsAnd_paddedDigits (marks : List Char) (width n : Nat) :
    DigitsAnd marks (paddedDigits width n) := (allDigits_paddedDigits width n).digitsAnd marks

theorem digitsAnd_writeYear (year : Int) : DigitsAnd WallClock.marks (writeYear year) := by
  have digits := digitsAnd_paddedDigits WallClock.marks 4 year.natAbs
  have minus : '-' ∈ WallClock.marks := by decide
  have plus : '+' ∈ WallClock.marks := by decide
  simp only [writeYear]
  split
  · exact digitsAnd_cons.mpr ⟨.inr minus, digits⟩
  · split
    · exact digitsAnd_cons.mpr ⟨.inr plus, digits⟩
    · exact digits

theorem digitsAnd_writeFraction (nanos : Nat) :
    DigitsAnd WallClock.marks (writeFraction nanos) := by
  have point : '.' ∈ WallClock.marks := by decide
  simp only [writeFraction]
  split
  · exact digitsAnd_nil _
  · have digits := allDigits_dropTrailing '0' (allDigits_paddedDigits 7 (nanos / nanosPerTick))
    exact digitsAnd_cons.mpr ⟨.inr point, digits.digitsAnd _⟩

/-- The text of a wall clock has digits and marks only. -/
theorem WallClock.digitsAnd_write (w : WallClock) : DigitsAnd marks w.write := by
  have dash : '-' ∈ marks := by decide
  have mark : 'T' ∈ marks := by decide
  have colon : ':' ∈ marks := by decide
  simp only [write, Date.write, digitsAnd_append, digitsAnd_cons, digitsAnd_writeYear,
    digitsAnd_paddedDigits, digitsAnd_writeFraction, dash, mark, colon, or_true, and_self]

theorem WallClock.noBlank_write (w : WallClock) : NoBlank w.write := by
  have plain : NoBlank marks := by
    simp only [marks, noBlank_cons, noBlank_nil, and_true]
    decide
  exact w.digitsAnd_write.noBlank plain

theorem noBlank_write_mark (w : WallClock) : NoBlank (w.write ++ ['Z']) := by
  have mark : isBlank 'Z' = false := rfl
  exact noBlank_append.mpr ⟨w.noBlank_write, noBlank_cons.mpr ⟨mark, noBlank_nil⟩⟩

/-- The mark of universal time does not occur in the text of a wall clock. -/
theorem WallClock.mark_not_mem_write (w : WallClock) : 'Z' ∉ w.write :=
  w.digitsAnd_write.not_mem rfl (by decide)

/-- A clock without the part below a tick leads back to what is shown, to the tick. -/
theorem instant?_toTick_wallClock (i : Instant) :
    i.wallClock.toTick.instant? 0 = some i.shown.toTick := by
  rw [← i.wallClock_toTick, i.toTick.instant?_wallClock, i.shown_toTick]

/-- Universal time in a year of four digits goes through the reader of offset date-times. -/
theorem readInstant_write_utc {i : Instant}
    (year : 0 ≤ i.wallClock.date.year ∧ i.wallClock.date.year ≤ 9999) :
    readInstant (Timestamp.utc i).write = some i.shown.toTick := by
  rw [readInstant, Timestamp.write, trim_of_noBlank (noBlank_write_mark i.wallClock),
    readOffsetDateTime_write_mark i.exists_wallClock year, instant?_toTick_wallClock]
  rfl

/-- With another year the text has a sign in front, which only the readers without a mark
for universal time take. -/
theorem readInstant_write_utc_of_signed {i : Instant}
    (year : ¬ (0 ≤ i.wallClock.date.year ∧ i.wallClock.date.year ≤ 9999)) :
    readInstant (Timestamp.utc i).write = none := by
  have there := i.exists_wallClock
  rw [readInstant, Timestamp.write, trim_of_noBlank (noBlank_write_mark i.wallClock),
    readOffsetDateTime_write_append_of_signed year,
    readLocalDateTime_write_append there endsTime_mark, readDate_write_append there]
  rfl

/-- What a tick does not show is not written. -/
theorem WallClock.write_toTick (w : WallClock) : w.toTick.write = w.write := by
  have ticks : w.nanos / 100 * 100 / 100 = w.nanos / 100 := by omega
  simp only [write, toTick, writeFraction, nanosPerTick, ticks]

theorem Instant.write_wallClock_toTick (i : Instant) :
    i.toTick.wallClock.write = i.wallClock.write := by
  rw [i.wallClock_toTick, WallClock.write_toTick]

/-- Instants with the same text are shown in one tick. -/
theorem Instant.toTick_shown_eq_of_write_eq {i j : Instant}
    (h : i.wallClock.write = j.wallClock.write) : i.shown.toTick = j.shown.toTick := by
  have first := readLocalDateTime_write i.exists_wallClock
  have second := readLocalDateTime_write j.exists_wallClock
  rw [instant?_toTick_wallClock] at first second
  rw [h, second] at first
  exact (Option.some.inj first).symm

/-- The part below a tick is not written. -/
theorem Timestamp.write_toTick (t : Timestamp) : t.toTick.write = t.write := by
  cases t with
  | utc i => exact congrArg (· ++ ['Z']) i.write_wallClock_toTick
  | unspecified i => exact i.write_wallClock_toTick

/-- What is not shown is not written. -/
theorem Timestamp.write_shown (t : Timestamp) : t.shown.write = t.write := by
  cases t with
  | utc i => exact congrArg (·.write ++ ['Z']) i.wallClock_shown
  | unspecified i => exact congrArg WallClock.write i.wallClock_shown

/-- The text of a timestamp is the identity of what is shown of it, to the tick. -/
theorem Timestamp.write_eq_iff {s t : Timestamp} :
    s.write = t.write ↔ s.shown.toTick = t.shown.toTick := by
  constructor
  · intro h
    cases s with
    | utc i =>
        cases t with
        | utc j =>
            have texts : i.wallClock.write = j.wallClock.write := List.append_cancel_right h
            exact congrArg utc (Instant.toTick_shown_eq_of_write_eq texts)
        | unspecified j =>
            refine absurd ?_ j.wallClock.mark_not_mem_write
            rw [show j.wallClock.write = i.wallClock.write ++ ['Z'] from h.symm]
            simp
    | unspecified i =>
        cases t with
        | utc j =>
            refine absurd ?_ i.wallClock.mark_not_mem_write
            rw [show i.wallClock.write = j.wallClock.write ++ ['Z'] from h]
            simp
        | unspecified j => exact congrArg unspecified (Instant.toTick_shown_eq_of_write_eq h)
  · intro h
    rw [← s.write_shown, ← s.shown.write_toTick, h, t.shown.write_toTick, t.write_shown]

end Metrology.Calendar
