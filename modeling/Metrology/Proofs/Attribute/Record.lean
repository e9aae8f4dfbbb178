import Metrology.Attribute.Json
import Metrology.Proofs.Attribute.Equality
import Metrology.Proofs.Json.Integer

/-!
# Attributes as records

The record of an attribute holds its identity and nothing else.  What is read back is
the attribute of the same key and text without a native value (`ofRecord?_toRecord`).

That the native value is lost shows in two places only.  One is the exception of
equality, which two native values are needed for.  The other is the question for the
domain of the native value itself.  Every other answer depends on the identity, and so
attributes of one identity are alike (`alike_of_identity_eq`).
-/

namespace Metrology

open Json (Document Number)

/-! ## Numbers in documents -/

/-- A natural number of 64 bits is read as itself. -/
theorem Json.Number.integer?_ofNat {n : Nat} (h : n < 18446744073709551616) :
    (ofNat n).integer? = some (n : Int) := by
  have digits : ofNat n = ofDigits false (Text.digits n) := rfl
  have value : Text.signedValue false (Text.digits n) = n :=
    congrArg Int.ofNat (Text.valueOf_digits n)
  rw [digits, integer?_ofDigits, value, if_pos]
  refine ⟨fun minus => Bool.false_ne_true minus.1, ?_, ?_⟩
  · omega
  · omega

/-- A number below a bound is taken as a natural number below it. -/
theorem Json.Document.asNatural?_ofNat {n bound : Nat} (h : n < bound)
    (small : bound ≤ 18446744073709551616) : asNatural? bound (.number (.ofNat n)) = some n := by
  rw [asNatural?, Number.integer?_ofNat (Nat.lt_of_lt_of_le h small)]
  exact if_pos ⟨Int.natCast_nonneg n, Int.ofNat_lt.mpr h⟩

namespace Attribute

/-! ## Reading records -/

/-- The number of a key is read as the key. -/
theorem keyOfDocument?_number (k : Key) :
    keyOfDocument? (.number (.ofNat k.number.toNat)) = some k := by
  rw [keyOfDocument?, Document.asNatural?_ofNat k.number.toNat_lt (by decide), Option.map_some,
    UInt16.ofNat_toNat]

theorem text_ofParts (key : Key) (text : Option String) : (ofParts key text).text = text := by
  cases text with
  | none => rfl
  | some text => rfl

theorem key_ofParts (key : Key) (text : Option String) : (ofParts key text).key = key := by
  cases text with
  | none => rfl
  | some text => rfl

theorem raw_ofParts (key : Key) (text : Option String) : (ofParts key text).raw = .absent := by
  cases text with
  | none => rfl
  | some text => rfl

/-- A record of a key and a text is read field by field. -/
theorem ofRecord?_object (key text : Document) :
    ofRecord? (.object [(some "key", key), (some "value", text)]) =
      (keyOfDocument? key).bind fun key => text.asOptionalText?.bind fun text =>
        some (ofParts key text) := rfl

/-- Key and text come back from the record. -/
theorem ofRecord?_toRecord (a : Attribute) :
    ofRecord? a.toRecord = some (ofParts a.key a.text) := by
  obtain ⟨key, text, raw, canonical⟩ := a
  have number := keyOfDocument?_number key
  cases text with
  | none =>
      rw [toRecord, ofRecord?_object, number]
      rfl
  | some text =>
      rw [toRecord, ofRecord?_object, number]
      rfl

/-! ## Attributes of one identity -/

/-- Attributes that are told apart by their native values at most, and by these only in
the domains of the values themselves. -/
structure Alike (a b : Attribute) : Prop where
  /-- They have the same hash. -/
  hash : a.identity = b.identity
  /-- Both have a value or none has. -/
  isNull : a.isNull = b.isNull
  /-- They have the same text. -/
  text : a.text = b.text
  /-- They are the same integer. -/
  asInteger? : a.asInteger? = b.asInteger?
  /-- They are the same double. -/
  asDouble? : a.asDouble? = b.asDouble?
  /-- They are the same instant. -/
  asInstant? : a.asInstant? = b.asInstant?
  /-- They are shown as the same text. -/
  display : a.display = b.display
  /-- They have the same record. -/
  toRecord : a.toRecord = b.toRecord
  /-- They are the same value of each domain that no native value of theirs is in. -/
  inDomain? : ∀ domain, a.raw.domain? ≠ some domain → b.raw.domain? ≠ some domain →
    a.inDomain? domain = b.inDomain? domain

theorem alike_of_identity_eq {a b : Attribute} (h : a.identity = b.identity) : a.Alike b := by
  obtain ⟨key, text⟩ := Prod.mk.inj h
  constructor
  case hash => exact h
  case text => exact text
  case isNull => rw [Attribute.isNull, Attribute.isNull, text]
  case asInteger? => rw [Attribute.asInteger?, Attribute.asInteger?, text]
  case asDouble? => rw [Attribute.asDouble?, Attribute.asDouble?, text]
  case asInstant? => rw [Attribute.asInstant?, Attribute.asInstant?, text]
  case display => rw [Attribute.display, Attribute.display, key, text]
  case toRecord => rw [Attribute.toRecord, Attribute.toRecord, key, text]
  case inDomain? =>
    intro domain first second
    rw [Attribute.inDomain?, if_neg first, Attribute.inDomain?, if_neg second, text]

/-- An attribute that went through its record is equal to the one that came from it, and
like it, but has no native value. -/
theorem exists_ofRecord?_toRecord (a : Attribute) : ∃ b, ofRecord? a.toRecord = some b ∧
    b == a ∧ a == b ∧ b.Alike a ∧ b.raw = .absent ∧
      ∀ domain, a.raw.domain? ≠ some domain → b.inDomain? domain = a.inDomain? domain := by
  have key := key_ofParts a.key a.text
  have text := text_ofParts a.key a.text
  have raw := raw_ofParts a.key a.text
  refine ⟨ofParts a.key a.text, ofRecord?_toRecord a, ?_⟩
  generalize ofParts a.key a.text = b at key text raw ⊢
  -- The exception of equality needs two native values, and one side has none.
  have number : ¬ (b.raw.isNaN ∧ a.raw.isNaN) := by
    rw [raw]
    rintro ⟨nan, -⟩
    cases nan
  have alike : b.Alike a := alike_of_identity_eq (Prod.ext key text)
  refine ⟨beq_iff.mpr ⟨key, text, number⟩, ?_, alike, raw, ?_⟩
  · exact beq_iff.mpr ⟨key.symm, text.symm, fun nan => number nan.symm⟩
  · intro domain native
    refine alike.inDomain? domain ?_ native
    rw [raw]
    rintro ⟨⟩

end Attribute

end Metrology
