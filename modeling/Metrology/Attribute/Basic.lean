import Metrology.Attribute.Key
import Metrology.Attribute.Value

/-!
# Attributes

An attribute is a key with a value.  What identifies it is the canonical text of the
value, and so the double 1.23 and the text `1.23` make the same attribute.  The
native value that the text comes from is kept beside it.  An attribute built from
text has none.

Equality goes by key and text, with one exception.  Two native doubles that are not
numbers make different attributes, although they share a text.  So an attribute can
differ from itself, and both of the two are equal to the attribute of their text.
-/

namespace Metrology

open Calendar (Instant Timestamp)

/-- A key with a value. -/
structure Attribute where
  /-- The key. -/
  key : Key
  /-- The canonical text of the value.  Without a value there is none. -/
  text : Option String
  /-- The native value, absent if the attribute was built from text. -/
  raw : Value
  /-- The text is that of the native value, if there is one. -/
  canonical : raw = .absent ∨ text = raw.canonicalText

namespace Attribute

/-! ## Building -/

/-- The attribute of a native value. -/
def ofValue (key : Key) (value : Value) : Attribute := ⟨key, value.canonicalText, value, .inr rfl⟩

/-- The attribute of a text that is canonical already. -/
def ofText (key : Key) (text : String) : Attribute := ⟨key, some text, .absent, .inl rfl⟩

/-- The attribute without a value. -/
def empty (key : Key) : Attribute := ⟨key, none, .absent, .inl rfl⟩

/-! ## Looking -/

/-- Whether an attribute has no value.  The empty text is one. -/
def isNull (a : Attribute) : Bool := a.text.isNone

/-- The value as an integer of 32 bits. -/
def asInteger? (a : Attribute) : Option Int32 := a.text.bind Value.readInteger

/-- The value as a double. -/
def asDouble? (a : Attribute) : Option Double := a.text.bind Value.readDouble

/-- The value as an instant. -/
def asInstant? (a : Attribute) : Option Instant := a.text.bind Value.readInstant

/-- The value in a domain.  A native value of that domain is given as it is, and
otherwise the text is read. -/
def inDomain? (a : Attribute) (domain : Domain) : Option Value :=
  if a.raw.domain? = some domain then some a.raw else a.text.bind (Value.ofText? domain)

/-- An attribute as shown to people. -/
def display (a : Attribute) : String := "K" ++ a.key.display ++ ": " ++ a.text.getD ""

/-! ## Equality -/

/-- What identifies an attribute.  Hashes are taken of this. -/
def identity (a : Attribute) : Key × Option String := (a.key, a.text)

/-- Whether two attributes are the same. -/
def equals (a b : Attribute) : Bool :=
  a.key == b.key && !(a.raw.isNaN && b.raw.isNaN) && a.text == b.text

instance : BEq Attribute := ⟨equals⟩

end Attribute

end Metrology
