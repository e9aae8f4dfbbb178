import Metrology.Calendar.WallClock
import Metrology.Proofs.Calendar.Date

/-!
# Instants and their wall clocks

What calendar and clock show at an instant exists, and it leads back to one instant.
This is the instant itself, unless it lies within a leap second that does not end a
minute.  The clock then shows the second that follows, and this is the one that is
found (`Instant.shown`).

So the lemmas about the way back suppose that leap seconds end their minute.  What is
shown does (`Instant.seconds_shown`), and clocks do not tell an instant from what is
shown (`Instant.wallClock_shown`).
-/

namespace Metrology.Calendar

/-- A wall clock with its fraction cut to ticks. -/
def WallClock.toTick (w : WallClock) : WallClock :=
  { w with nanos := w.nanos / nanosPerTick * nanosPerTick }

namespace Instant

theorem ofParts?_self (i : Instant) : ofParts? i.seconds i.nanos = some i := dif_pos i.valid

/-- What is shown has its leap seconds at the ends of minutes. -/
theorem seconds_shown (i : Instant) :
    nanosPerSecond ≤ i.shown.nanos → i.shown.seconds % 60 = 59 := by
  obtain ⟨-, -, bound⟩ := i.valid
  intro leap
  rw [shown] at leap ⊢
  split at leap
  next hidden =>
    simp only [nanosPerSecond] at leap bound
    omega
  next plain =>
    rw [dif_neg plain]
    omega

/-- An instant and what is shown of it look the same. -/
theorem wallClock_shown (i : Instant) : i.shown.wallClock = i.wallClock := by
  rw [shown]
  split
  next hidden =>
    obtain ⟨-, -, bound⟩ := i.valid
    obtain ⟨leap, inside⟩ := hidden
    -- The second that follows lies in the same minute.
    have day : (i.seconds + 1) / 86400 = i.seconds / 86400 := by omega
    have inDay : ((i.seconds + 1) % 86400).toNat = (i.seconds % 86400).toNat + 1 := by omega
    have hour : ((i.seconds % 86400).toNat + 1) / 3600 = (i.seconds % 86400).toNat / 3600 := by
      omega
    have minute : ((i.seconds % 86400).toNat + 1) / 60 = (i.seconds % 86400).toNat / 60 := by
      omega
    simp only [wallClock, day, inDay, hour, minute, WallClock.mk.injEq, true_and]
    simp only [nanosPerSecond] at bound leap ⊢
    omega
  next => rfl

/-- What calendar and clock show exists. -/
theorem exists_wallClock (i : Instant) : i.wallClock.Exists := by
  rw [← i.wallClock_shown]
  obtain ⟨-, -, bound⟩ := i.shown.valid
  have leap := i.seconds_shown
  refine ⟨exists_ofDayNumber _, ?_, ?_, ?_, Nat.mod_lt _ (by decide)⟩
  · simp only [wallClock]
    omega
  · simp only [wallClock]
    omega
  · simp only [wallClock, nanosPerSecond] at bound leap ⊢
    omega

section OnMinutes

variable {i : Instant} (leap : nanosPerSecond ≤ i.nanos → i.seconds % 60 = 59)

include leap

/-- The clock shows second 60 exactly within a leap second. -/
theorem second_wallClock : i.wallClock.second = 60 ↔ nanosPerSecond ≤ i.nanos := by
  obtain ⟨-, -, bound⟩ := i.valid
  simp only [wallClock, nanosPerSecond] at bound leap ⊢
  omega

theorem seconds_wallClock : i.wallClock.seconds = i.seconds := by
  obtain ⟨-, -, bound⟩ := i.valid
  simp only [WallClock.seconds, wallClock, dayNumber_ofDayNumber]
  simp only [nanosPerSecond] at bound leap ⊢
  omega

theorem nanosOnTop_wallClock : i.wallClock.nanosOnTop = i.nanos := by
  have sixty := second_wallClock leap
  obtain ⟨-, -, bound⟩ := i.valid
  have nanos : i.wallClock.nanos = i.nanos % nanosPerSecond := rfl
  rw [WallClock.nanosOnTop, nanos]
  simp only [nanosPerSecond] at bound sixty ⊢
  by_cases h : 1000000000 ≤ i.nanos
  · rw [if_pos (sixty.mpr h)]
    omega
  · rw [if_neg (mt sixty.mp h)]
    omega

theorem instant?_wallClock_of_leap : i.wallClock.instant? 0 = some i := by
  rw [WallClock.instant?, if_pos i.exists_wallClock, seconds_wallClock leap,
    nanosOnTop_wallClock leap, Int.sub_zero, ofParts?_self]

end OnMinutes

/-- What calendar and clock show leads back to the instant that is shown. -/
theorem instant?_wallClock (i : Instant) : i.wallClock.instant? 0 = some i.shown := by
  rw [← i.wallClock_shown, instant?_wallClock_of_leap i.seconds_shown]

/-- It makes no difference whether an instant is first cut to a tick or first shown. -/
theorem shown_toTick (i : Instant) : i.toTick.shown = i.shown.toTick := by
  have leap : nanosPerSecond ≤ i.toTick.nanos ↔ nanosPerSecond ≤ i.nanos := by
    simp only [toTick, nanosPerSecond, nanosPerTick]
    omega
  by_cases hidden : nanosPerSecond ≤ i.nanos ∧ i.seconds % 60 ≠ 59
  · have ticks : i.nanos / 100 * 100 - 1000000000 = (i.nanos - 1000000000) / 100 * 100 := by omega
    rw [shown, dif_pos ⟨leap.mpr hidden.1, hidden.2⟩, shown, dif_pos hidden]
    simp only [toTick, nanosPerSecond, nanosPerTick, ticks]
  · rw [shown, dif_neg fun both => hidden ⟨leap.mp both.1, both.2⟩, shown, dif_neg hidden]

/-- Cutting an instant to a tick cuts the nanoseconds that the clock shows. -/
theorem wallClock_toTick (i : Instant) : i.toTick.wallClock = i.wallClock.toTick := by
  have seconds : i.nanos / 100 * 100 / 1000000000 = i.nanos / 1000000000 := by omega
  have nanos : i.nanos / 100 * 100 % 1000000000 = i.nanos % 1000000000 / 100 * 100 := by omega
  simp only [wallClock, toTick, WallClock.toTick, nanosPerTick, nanosPerSecond, seconds, nanos]

end Instant

/-! ## Offsets -/

/-- The days of the years with four digits lie far from the ends of the calendar. -/
theorem Date.Exists.dayNumber_bounds {d : Date} (h : d.Exists)
    (year : 0 ≤ d.year ∧ d.year ≤ 9999) : -720000 ≤ d.dayNumber ∧ d.dayNumber ≤ 2933000 := by
  obtain ⟨-, day⟩ := h.bounds
  obtain ⟨first, -⟩ := h
  have month : (153 * ((d.month + 9) % 12) + 2) / 5 ≤ 337 := by omega
  simp only [dayNumber, marchStart, monthStart, epochDay]
  split
  · omega
  · omega

/-- An offset of whole minutes moves the instant and keeps its nanoseconds, also those of a
leap second.  In the years of four digits it never leads out of the calendar. -/
theorem WallClock.instant?_offset {w : WallClock} (year : 0 ≤ w.date.year ∧ w.date.year ≤ 9999)
    {offset : Int} (minutes : offset % 60 = 0) (day : -86400 < offset ∧ offset < 86400) :
    (w.instant? offset).map (fun i => (i.seconds, i.nanos)) =
      (w.instant? 0).map fun i => (i.seconds - offset, i.nanos) := by
  by_cases there : w.Exists
  · have valid (shift : Int) (minutes : shift % 60 = 0)
        (day : -86400 < shift ∧ shift < 86400) :
        Instant.Valid (w.seconds - shift) w.nanosOnTop := by
      obtain ⟨date, hour, minute, second, nanos⟩ := there
      obtain ⟨first, last⟩ := date.dayNumber_bounds year
      simp only [Instant.Valid, firstSecond, lastSecond, seconds, nanosOnTop,
        nanosPerSecond] at nanos ⊢
      split
      · omega
      · omega
    have moved := valid offset minutes day
    have unmoved := valid 0 rfl (by decide)
    rw [instant?, if_pos there, instant?, if_pos there, Instant.ofParts?, dif_pos moved,
      Instant.ofParts?, dif_pos unmoved]
    simp only [Option.map_some, Int.sub_zero]
  · rw [instant?, if_neg there, instant?, if_neg there]
    rfl

end Metrology.Calendar
