import Metrology.Text.Integer

/-!
# Attribute keys

A key names one attribute of the inspection schema.  It stays the same when the
attribute is renamed, and it is never given to another one.  Its text is its
number.
-/

namespace Metrology

/-- The number of an attribute within the inspection schema. -/
structure Key where
  /-- The number. -/
  number : UInt16
deriving DecidableEq, Repr

namespace Key

/-- The text of a key. -/
def display (k : Key) : String := String.ofList (Text.digits k.number.toNat)

/-- Reads a key.  Nothing is trimmed, and a plus may stand in front. -/
def read (s : String) : Except Text.IntegerError Key :=
  (Text.readNatural 65535 s.toList).map fun n => ⟨UInt16.ofNat n⟩

/-- The given keys by ascending number, equal ones in their given order. -/
def sort (ks : List Key) : List Key := ks.mergeSort fun a b => a.number ≤ b.number

/-! ## The shared schema -/

/-- The value that was measured. -/
def measuredValue : Key := ⟨1⟩

/-- When a measurement was taken. -/
def time : Key := ⟨4⟩

/-- What happened during a measurement. -/
def events : Key := ⟨5⟩

/-- The batch a measured part comes from. -/
def batchNumber : Key := ⟨6⟩

/-- The nest a measured part comes from. -/
def nestNumber : Key := ⟨7⟩

/-- Who measured. -/
def operator : Key := ⟨8⟩

/-- A remark on a measurement. -/
def remark : Key := ⟨9⟩

/-- The machine a measured part comes from. -/
def machine : Key := ⟨10⟩

/-- The number of a part. -/
def partNumber : Key := ⟨1001⟩

/-- What a part is. -/
def partDescription : Key := ⟨1002⟩

/-- The number of a characteristic. -/
def characteristicNumber : Key := ⟨2001⟩

/-- What a characteristic is. -/
def characteristicDescription : Key := ⟨2002⟩

/-- The value a characteristic should have. -/
def nominalValue : Key := ⟨2101⟩

/-- How far a characteristic may lie below its nominal value. -/
def lowerTolerance : Key := ⟨2110⟩

/-- How far a characteristic may lie above its nominal value. -/
def upperTolerance : Key := ⟨2111⟩

/-- The well-known keys of measured values. -/
def ofValues : List Key := [measuredValue]

/-- The well-known keys of measurements. -/
def ofMeasurements : List Key :=
  [time, events, batchNumber, nestNumber, operator, remark, machine]

/-- The well-known keys of parts. -/
def ofParts : List Key := [partNumber, partDescription]

/-- The well-known keys of characteristics. -/
def ofCharacteristics : List Key :=
  [characteristicNumber, characteristicDescription, nominalValue, lowerTolerance, upperTolerance]

end Key

end Metrology
