import Metrology.Calendar.WallClock
import Metrology.Text.Digits

/-!
# Timestamps

A timestamp is an instant together with its kind.  Some are instants of universal
time and say so.  Others are readings of a wall clock somewhere, and where an
instant is needed they are taken for universal time.

The text of a timestamp is its date, a `T` and its time.  Fractions of a second are
cut to ticks and written without zeros at the end.  Universal time is marked with a
`Z`.  Years from 0 to 9999 have four digits, and all others a sign and at least
four.
-/

namespace Metrology.Calendar

/-! ## Text of a wall clock -/

/-- The text of a year. -/
def writeYear (year : Int) : List Char :=
  let ds := Text.paddedDigits 4 year.natAbs
  if year < 0 then '-' :: ds else if 9999 < year then '+' :: ds else ds

/-- The text of a date. -/
def Date.write (d : Date) : List Char :=
  writeYear d.year ++ '-' :: Text.paddedDigits 2 d.month ++ '-' :: Text.paddedDigits 2 d.day

/-- The text of a fraction of a second, which is empty below one tick. -/
def writeFraction (nanos : Nat) : List Char :=
  let ticks := nanos / nanosPerTick
  if ticks = 0 then [] else '.' :: Text.dropTrailing '0' (Text.paddedDigits 7 ticks)

/-- The text of what calendar and clock show. -/
def WallClock.write (w : WallClock) : List Char :=
  w.date.write ++ 'T' :: Text.paddedDigits 2 w.hour ++ ':' :: Text.paddedDigits 2 w.minute ++
    ':' :: Text.paddedDigits 2 w.second ++ writeFraction w.nanos

/-! ## Timestamps -/

/-- An instant and its kind. -/
inductive Timestamp where
  /-- An instant of universal time. -/
  | utc (instant : Instant)
  /-- A wall clock somewhere, given by the instant at which universal time shows the
  same. -/
  | unspecified (wall : Instant)
deriving DecidableEq

namespace Timestamp

/-- The instant of a timestamp. -/
def instant : Timestamp → Instant
  | utc i | unspecified i => i

/-- Whether a timestamp is marked as universal time. -/
def isUtc : Timestamp → Bool
  | utc _ => true
  | unspecified _ => false

/-- A timestamp with its instant cut to ticks. -/
def toTick : Timestamp → Timestamp
  | utc i => utc i.toTick
  | unspecified i => unspecified i.toTick

/-- A timestamp with its instant as it is shown. -/
def shown : Timestamp → Timestamp
  | utc i => utc i.shown
  | unspecified i => unspecified i.shown

/-- The canonical text of a timestamp. -/
def write : Timestamp → List Char
  | utc i => i.wallClock.write ++ ['Z']
  | unspecified i => i.wallClock.write

end Timestamp

end Metrology.Calendar
