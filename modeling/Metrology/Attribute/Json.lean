import Metrology.Attribute.Basic
import Metrology.Json.Record

/-!
# Attributes in JSON

A value without a type of its own arrives as a document.  Null, strings and numbers
can be values.  Integers need to fit 32 bits and are refused otherwise.  They are
never turned into doubles, unless they are minus zero or their text is beyond the
integers of JSON.  The double of a number is the one that JSON reads it as, which is not
always the nearest one.

An attribute as a whole is a record of its key and its text.  The native value stays
behind.
-/

namespace Metrology

open Json (Document)

/-- A kind of document that is no value. -/
inductive ForeignKind where
  /-- An integer of more than 32 bits. -/
  | longInteger
  /-- A truth value. -/
  | boolean
  /-- An array. -/
  | array
  /-- An object. -/
  | object
deriving DecidableEq, Repr

/-- The name of a kind of document that is no value. -/
def ForeignKind.name : ForeignKind → String
  | longInteger => "integer out of range"
  | boolean => "boolean"
  | array => "array"
  | object => "object"

/-- Why JSON text is no value. -/
inductive ValueError where
  /-- It is no plain document. -/
  | malformed
  /-- It is a document outside the closed world of values. -/
  | invalidType (kind : ForeignKind)
deriving DecidableEq, Repr

/-- The wording of a value error. -/
def ValueError.message : ValueError → String
  | malformed => "malformed attribute value"
  | invalidType kind => "invalid attribute value type: " ++ kind.name

namespace Value

/-- The value of a number. -/
def ofNumber (n : Json.Number) : Except ValueError Value :=
  match n.integer? with
  | some value =>
    if -2147483648 ≤ value ∧ value ≤ 2147483647 then .ok (integer (Int32.ofInt value))
    else .error (.invalidType .longInteger)
  | none =>
    match n.double? with
    | some x => .ok (double x)
    | none => .error .malformed

/-- The value of a document. -/
def ofDocument (d : Document) : Except ValueError Value :=
  if d.isPlain then
    match d with
    | .null => .ok absent
    | .string (some s) => .ok (text s)
    | .string none => .error .malformed
    | .number n => ofNumber n
    | .boolean _ => .error (.invalidType .boolean)
    | .array _ => .error (.invalidType .array)
    | .object _ => .error (.invalidType .object)
  else .error .malformed

/-- The value of a JSON text. -/
def ofJson (s : String) : Except ValueError Value :=
  match Json.read s with
  | some d => ofDocument d
  | none => .error .malformed

end Value

namespace Attribute

/-- The attribute of a JSON text that holds its value. -/
def ofJson (key : Key) (s : String) : Except ValueError Attribute :=
  (Value.ofJson s).map (ofValue key)

/-- Reads a key. -/
def keyOfDocument? (d : Document) : Option Key :=
  (d.asNatural? 65536).map fun n => ⟨UInt16.ofNat n⟩

/-- The attribute with the given key, and the given text if there is one. -/
def ofParts (key : Key) : Option String → Attribute
  | some text => ofText key text
  | none => empty key

/-- Reads an attribute as a record.  The text may be missing from an object, but not
from an array. -/
def ofRecord? : Document → Option Attribute
  | .array [key, text] => do
    return ofParts (← keyOfDocument? key) (← text.asOptionalText?)
  | .object members =>
    if Document.areNamed members then do
      let key ← (← Document.member? members "key")
      let text := (← Document.member? members "value").getD .null
      return ofParts (← keyOfDocument? key) (← text.asOptionalText?)
    else none
  | _ => none

/-- The record of an attribute. -/
def toRecord (a : Attribute) : Document :=
  .object [(some "key", .number (.ofNat a.key.number.toNat)),
    (some "value", match a.text with
      | some text => .string (some text)
      | none => .null)]

end Attribute

end Metrology
