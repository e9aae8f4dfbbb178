/-!
# Instants

An instant is a number of seconds since the start of 1970, and nanoseconds on top.
Both count without leap seconds, and yet a leap second can be named: the
nanoseconds of any second may run up to two seconds.  At the end of a minute such an
instant is shown as second 60.  Anywhere else it has no number of its own, and it is
shown as an instant of the second that follows.

The calendar covers the years from -262143 to 262142.
-/

namespace Metrology.Calendar

/-- The number of nanoseconds of a second. -/
abbrev nanosPerSecond : Nat := 1000000000

/-- The number of nanoseconds of a tick, the finest step that text can name. -/
abbrev nanosPerTick : Nat := 100

/-- The first second of the year -262143. -/
abbrev firstSecond : Int := -8334601228800

/-- The last second of the year 262142. -/
abbrev lastSecond : Int := 8210266876799

/-- The calendar covers these seconds, and they can carry these nanoseconds. -/
def Instant.Valid (seconds : Int) (nanos : Nat) : Prop :=
  firstSecond ≤ seconds ∧ seconds ≤ lastSecond ∧ nanos < 2 * nanosPerSecond

instance (seconds : Int) (nanos : Nat) : Decidable (Instant.Valid seconds nanos) :=
  inferInstanceAs (Decidable (_ ∧ _))

/-- A point in time. -/
structure Instant where
  /-- Whole seconds since the start of 1970. -/
  seconds : Int
  /-- Nanoseconds on top, a second or more within a leap second. -/
  nanos : Nat
  /-- The calendar knows this point. -/
  valid : Instant.Valid seconds nanos
deriving DecidableEq

namespace Instant

/-- The instant with the given parts, if the calendar knows it. -/
def ofParts? (seconds : Int) (nanos : Nat) : Option Instant :=
  if h : Valid seconds nanos then some ⟨seconds, nanos, h⟩ else none

/-- The last tick up to an instant. -/
def toTick (i : Instant) : Instant where
  seconds := i.seconds
  nanos := i.nanos / nanosPerTick * nanosPerTick
  valid := by
    obtain ⟨first, last, bound⟩ := i.valid
    have le := Nat.div_mul_le_self i.nanos nanosPerTick
    exact ⟨first, last, by omega⟩

/-- The instant that is shown.  It is another one only within a leap second that does not
end a minute. -/
def shown (i : Instant) : Instant :=
  if h : nanosPerSecond ≤ i.nanos ∧ i.seconds % 60 ≠ 59 then
    { seconds := i.seconds + 1
      nanos := i.nanos - nanosPerSecond
      valid := by
        obtain ⟨first, last, bound⟩ := i.valid
        -- The last second of the calendar ends a minute.
        have room : i.seconds + 1 ≤ lastSecond := by
          simp only [lastSecond] at last ⊢
          omega
        exact ⟨by omega, room, by omega⟩ }
  else i

end Instant

end Metrology.Calendar
