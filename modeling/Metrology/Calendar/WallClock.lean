import Metrology.Calendar.Date
import Metrology.Calendar.Instant

/-!
# Wall clocks

What calendar and clock show at an instant.  Within a leap second the clock shows the
next number, which is 60 at the end of a minute, and the nanoseconds run from zero as
in any other second.
-/

namespace Metrology.Calendar

/-- The reading of a calendar and a clock. -/
structure WallClock where
  /-- The date. -/
  date : Date
  /-- Hours since midnight. -/
  hour : Nat
  /-- Minutes of the hour. -/
  minute : Nat
  /-- Seconds of the minute, 60 within a leap second. -/
  second : Nat
  /-- Nanoseconds of the second. -/
  nanos : Nat
deriving DecidableEq, Repr

/-- What calendar and clock show at an instant. -/
def Instant.wallClock (i : Instant) : WallClock :=
  let inDay := (i.seconds % 86400).toNat
  { date := Date.ofDayNumber (i.seconds / 86400)
    hour := inDay / 3600
    minute := inDay / 60 % 60
    second := inDay % 60 + i.nanos / nanosPerSecond
    nanos := i.nanos % nanosPerSecond }

namespace WallClock

/-- The day exists, and a clock has these fields. -/
def Exists (w : WallClock) : Prop :=
  w.date.Exists ∧ w.hour ≤ 23 ∧ w.minute ≤ 59 ∧ w.second ≤ 60 ∧ w.nanos < nanosPerSecond

instance (w : WallClock) : Decidable w.Exists := inferInstanceAs (Decidable (_ ∧ _))

/-- The seconds since the start of 1970.  A leap second counts with the one before. -/
def seconds (w : WallClock) : Int :=
  w.date.dayNumber * 86400 + w.hour * 3600 + w.minute * 60 + min w.second 59

/-- The nanoseconds on top of them. -/
def nanosOnTop (w : WallClock) : Nat :=
  if w.second = 60 then w.nanos + nanosPerSecond else w.nanos

/-- The instant at which a wall clock ahead of universal time by `offset` seconds
shows this, if there is one. -/
def instant? (w : WallClock) (offset : Int) : Option Instant :=
  if w.Exists then Instant.ofParts? (w.seconds - offset) w.nanosOnTop else none

end WallClock

end Metrology.Calendar
