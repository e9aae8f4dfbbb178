import Metrology.Calendar.Reading
import Metrology.Calendar.Timestamp
import Metrology.Double.Text
import Metrology.Text.Integer

/-!
# Attribute values

The native values of attributes form a closed world.  A value is a text, an integer
of 16 or of 32 bits, a double or a timestamp, or it is absent.  All but the absent
one have a canonical text, and it is the same in every culture.

Going back, text is read into a domain.  Integers are read strictly, and so `1.0` is
none.  All readers but that of text itself forgive blanks around it.
-/

namespace Metrology

open Calendar (Instant Timestamp)

/-- What kind of value can be asked for. -/
inductive Domain where
  /-- Texts. -/
  | text
  /-- Integers of 16 bits. -/
  | shortInteger
  /-- Integers of 32 bits. -/
  | integer
  /-- Doubles. -/
  | double
  /-- Timestamps. -/
  | timestamp
  /-- Opaque identifiers.  No value is one. -/
  | identifier
deriving DecidableEq, Repr

/-- A native value. -/
inductive Value where
  /-- No value. -/
  | absent
  /-- A text. -/
  | text (value : String)
  /-- An integer of 16 bits. -/
  | shortInteger (value : Int16)
  /-- An integer of 32 bits. -/
  | integer (value : Int32)
  /-- A double. -/
  | double (value : Double)
  /-- A timestamp. -/
  | timestamp (value : Timestamp)
deriving DecidableEq

instance : Inhabited Value := ⟨.absent⟩

namespace Value

/-- The domain of a value.  The absent one has none. -/
def domain? : Value → Option Domain
  | absent => none
  | text _ => some .text
  | shortInteger _ => some .shortInteger
  | integer _ => some .integer
  | double _ => some .double
  | timestamp _ => some .timestamp

/-- Whether there is no value. -/
def isAbsent : Value → Bool
  | absent => true
  | _ => false

/-- Whether the value is a double and not a number. -/
def isNaN : Value → Bool
  | double x => x.isNaN
  | _ => false

/-- The canonical text of a value. -/
def canonicalText : Value → Option String
  | absent => none
  | text s => some s
  | shortInteger n => some (String.ofList (Text.writeInteger n.toInt))
  | integer n => some (String.ofList (Text.writeInteger n.toInt))
  | double x => some (String.ofList x.write)
  | timestamp t => some (String.ofList t.write)

/-- The equality of values.  Doubles are compared as numbers, and values of two
domains are never equal. -/
def equals : Value → Value → Bool
  | double x, double y => x == y
  | v, w => decide (v = w)

instance : BEq Value := ⟨equals⟩

/-! ## Reading -/

/-- Reads an integer of 16 bits. -/
def readShortInteger (s : String) : Option Int16 :=
  (Text.readInteger 32767 (Text.trim s.toList)).toOption.map Int16.ofInt

/-- Reads an integer of 32 bits. -/
def readInteger (s : String) : Option Int32 :=
  (Text.readInteger 2147483647 (Text.trim s.toList)).toOption.map Int32.ofInt

/-- Reads a double. -/
def readDouble (s : String) : Option Double := Double.read s.toList

/-- Reads an instant. -/
def readInstant (s : String) : Option Instant := Calendar.readInstant s.toList

/-- Reads a text into a domain.  An instant is read as universal time. -/
def ofText? : Domain → String → Option Value
  | .text, s => some (text s)
  | .shortInteger, s => (readShortInteger s).map shortInteger
  | .integer, s => (readInteger s).map integer
  | .double, s => (readDouble s).map double
  | .timestamp, s => (readInstant s).map fun i => timestamp (.utc i)
  | .identifier, _ => none

end Value

end Metrology
