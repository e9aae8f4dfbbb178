import Metrology.Calendar.WallClock
import Metrology.Text.Blank
import Metrology.Text.Digits

/-!
# Reading instants

Three readers turn text into an instant, and each takes a whole text or nothing.

*Offset date-times* follow RFC 3339.  The fields have a fixed width, a `T`, a `t` or
one space stands between date and time, and an offset from universal time ends the
text.

*Local date-times* and *dates* have no offset and mean universal time.  Their fields
may have fewer digits and blanks in front.  The year may have a sign, and then any
number of digits.

A fraction of a second may have any number of digits, and those after the ninth are
dropped.  Second 60 is a leap second in any minute.

`readInstant` trims the text and tries the three in this order.
-/

namespace Metrology.Calendar

open Text (takeDigits takeChar)

/-! ## Fields -/

/-- The nanoseconds that the digits of a fraction stand for. -/
def nanosOf (ds : List Char) : Nat := Text.valueOf ((ds.take 9).rightpad 9 '0')

/-- Reads the fraction of a second.  Without a point it is zero. -/
def takeFraction : List Char → Option (Nat × List Char)
  | '.' :: cs =>
    let (ds, rest) := Text.spanDigits cs
    if ds.isEmpty then none else some (nanosOf ds, rest)
  | cs => some (0, cs)

/-- Reads a field of one or two digits after blanks. -/
def takeField (cs : List Char) : Option (Nat × List Char) := takeDigits 1 2 (Text.trimStart cs)

/-- Reads a year after blanks: up to four digits, or a sign and any number of them. -/
def takeYear (cs : List Char) : Option (Int × List Char) :=
  match Text.trimStart cs with
  | '+' :: cs => (takeDigits 1 cs.length cs).map fun (n, rest) => (Int.ofNat n, rest)
  | '-' :: cs => (takeDigits 1 cs.length cs).map fun (n, rest) => (-Int.ofNat n, rest)
  | cs => (takeDigits 1 4 cs).map fun (n, rest) => (Int.ofNat n, rest)

/-- The seconds of an offset of hours and minutes, which stays below a day. -/
def offsetSeconds? (hours minutes : Nat) : Option Int :=
  if hours ≤ 23 ∧ minutes ≤ 59 then some (hours * 3600 + minutes * 60) else none

/-- Reads the hours and minutes of an offset. -/
def takeOffsetFields (cs : List Char) : Option (Int × List Char) := do
  let (hours, cs) ← takeDigits 2 2 cs
  let cs ← takeChar ':' cs
  let (minutes, cs) ← takeDigits 2 2 cs
  return (← offsetSeconds? hours minutes, cs)

/-- Reads an offset from universal time, in seconds. -/
def takeOffset : List Char → Option (Int × List Char)
  | [] => none
  | c :: cs =>
    if c = 'Z' ∨ c = 'z' then some (0, cs)
    else if c = '+' then takeOffsetFields cs
    else if c = '-' ∨ c = '\u2212' then (takeOffsetFields cs).map fun (s, rest) => (-s, rest)
    else none

/-- Passes the mark between the date and the time of an offset date-time. -/
def takeSeparator : List Char → Option (List Char)
  | c :: cs => if c = 'T' ∨ c = 't' ∨ c = ' ' then some cs else none
  | [] => none

/-- A result that leaves nothing over. -/
def atEnd (result : α) (rest : List Char) : Option α :=
  if rest.isEmpty then some result else none

/-! ## Readers -/

/-- Reads an offset date-time. -/
def readOffsetDateTime (cs : List Char) : Option Instant := do
  let (year, cs) ← takeDigits 4 4 cs
  let cs ← takeChar '-' cs
  let (month, cs) ← takeDigits 2 2 cs
  let cs ← takeChar '-' cs
  let (day, cs) ← takeDigits 2 2 cs
  let cs ← takeSeparator cs
  let (hour, cs) ← takeDigits 2 2 cs
  let cs ← takeChar ':' cs
  let (minute, cs) ← takeDigits 2 2 cs
  let cs ← takeChar ':' cs
  let (second, cs) ← takeDigits 2 2 cs
  let (nanos, cs) ← takeFraction cs
  let (offset, cs) ← takeOffset cs
  let clock ← atEnd (WallClock.mk ⟨year, month, day⟩ hour minute second nanos) cs
  clock.instant? offset

/-- Reads the date of a text without an offset. -/
def takeDate (cs : List Char) : Option (Date × List Char) := do
  let (year, cs) ← takeYear cs
  let cs ← takeChar '-' cs
  let (month, cs) ← takeField cs
  let cs ← takeChar '-' cs
  let (day, cs) ← takeField cs
  return (⟨year, month, day⟩, cs)

/-- Reads a local date-time. -/
def readLocalDateTime (cs : List Char) : Option Instant := do
  let (date, cs) ← takeDate cs
  let cs ← takeChar 'T' cs
  let (hour, cs) ← takeField cs
  let cs ← takeChar ':' cs
  let (minute, cs) ← takeField cs
  let cs ← takeChar ':' cs
  let (second, cs) ← takeField cs
  let (nanos, cs) ← takeFraction cs
  let clock ← atEnd (WallClock.mk date hour minute second nanos) cs
  clock.instant? 0

/-- Reads a date as the midnight at its start. -/
def readDate (cs : List Char) : Option Instant := do
  let (date, cs) ← takeDate cs
  let clock ← atEnd (WallClock.mk date 0 0 0 0) cs
  clock.instant? 0

/-- Reads an instant from a text with blanks around it. -/
def readInstant (cs : List Char) : Option Instant :=
  let cs := Text.trim cs
  readOffsetDateTime cs <|> readLocalDateTime cs <|> readDate cs

end Metrology.Calendar
