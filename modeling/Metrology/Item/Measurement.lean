import Metrology.Item.AttributeList

/-!
# Measurements

A measurement of a part, without the values that were measured.  Its time is one of
its attributes.  It is written as a native instant and read from the text, so a time
that came in as text counts as well, and text that is no time counts as none.
-/

namespace Metrology

open Calendar (Instant Timestamp)

/-- A measurement of a part. -/
structure Measurement where
  /-- What identifies the measurement. -/
  uuid : String
  /-- What identifies the part. -/
  partUuid : String
  /-- When the record was made. -/
  created : Instant
  /-- When the record was last changed. -/
  lastModified : Instant
  /-- The attributes. -/
  attributes : AttributeList := .empty

namespace Measurement

/-- The measurement of a part at the moment its record is made. -/
def new (uuid partUuid : String) (now : Instant) : Measurement :=
  { uuid, partUuid, created := now, lastModified := now }

/-- The earliest time that a database of measurements can hold, the start of 1753. -/
def earliestTime : Instant := ⟨-6847804800, 0, by decide⟩

/-- The time of a measurement. -/
def time? (m : Measurement) : Option Instant := (m.attributes.find? Key.time).bind (·.asInstant?)

/-- Stores the time of a measurement, or removes it. -/
def setTime (m : Measurement) (time : Option Instant) : Measurement :=
  { m with
    attributes := match time with
      | some i => m.attributes.set (.ofValue Key.time (.timestamp (.utc i)))
      | none => m.attributes.remove Key.time }

/-- The time of a measurement, or else the earliest one. -/
def timeOrEarliest (m : Measurement) : Instant := m.time?.getD earliestTime

/-- The time of a measurement, or else that of its record. -/
def timeOrCreation (m : Measurement) : Instant := m.time?.getD m.created

/-- A measurement as shown to people. -/
def display (m : Measurement) : String :=
  let time := match m.time? with
    | some i => String.ofList (Timestamp.utc i).write
    | none => ""
  "'" ++ time ++ "' [" ++ m.uuid ++ "]"

/-- Whether two measurements have the same parts. -/
def equals (m n : Measurement) : Bool :=
  m.uuid == n.uuid && m.partUuid == n.partUuid && m.created == n.created &&
    m.lastModified == n.lastModified && m.attributes == n.attributes

instance : BEq Measurement := ⟨equals⟩

end Measurement

end Metrology
