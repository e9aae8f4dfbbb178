import Metrology.Attribute.Basic
import Metrology.Proofs.Attribute.Number
import Metrology.Proofs.Calendar.Timestamp

/-!
# Equality of attributes

Two attributes are equal if they have one key and one text, unless both hold doubles
that are not numbers.  So equality never looks at the values beyond this exception, and
equal attributes have the same hash.  It is symmetric, and the exception is all that
keeps it from being transitive.  A text `NaN` equals each of two such doubles, and they
do not equal each other.

Between native values the text is faithful.  Numbers are told from timestamps by the
colon, and on each side the text is an identity, that of the number or of the kind and
the tick that is shown.
-/

namespace Metrology.Attribute

open Calendar (Timestamp)

theorem beq_iff {a b : Attribute} :
    a == b ↔ a.key = b.key ∧ a.text = b.text ∧ ¬ (a.raw.isNaN ∧ b.raw.isNaN) := by
  change a.equals b ↔ _
  simp only [equals, Bool.and_eq_true, Bool.not_eq_true', beq_iff_eq, ← Bool.not_eq_true]
  exact and_assoc.trans (and_congr_right fun _ => and_comm)

/-! ## The laws of equality -/

/-- Equality is symmetric, respects the hash, and is transitive except between two native
doubles that are not numbers. -/
theorem beq_laws (a b c : Attribute) :
    (a == b → b == a) ∧
    (a == b → b == c → (a == c ↔ ¬ (a.raw.isNaN ∧ c.raw.isNaN))) ∧
    (a == b → a.identity = b.identity) := by
  simp only [beq_iff]
  refine ⟨?_, ?_, ?_⟩
  · rintro ⟨key, text, number⟩
    exact ⟨key.symm, text.symm, fun nan => number nan.symm⟩
  · rintro ⟨key, text, -⟩ ⟨key', text', -⟩
    exact ⟨fun same => same.2.2, fun number => ⟨key.trans key', text.trans text', number⟩⟩
  · rintro ⟨key, text, -⟩
    exact Prod.ext key text

/-- A double that is not a number equals its text, and the text another such double. -/
theorem beq_not_transitive : ¬ ∀ a b c : Attribute,
    (a == b → b == a) ∧ (a == b → b == c → a == c) ∧ (a == b → a.identity = b.identity) := by
  intro laws
  have chain := (laws (ofValue Key.measuredValue (.double .nan)) (ofText Key.measuredValue "NaN")
    (ofValue Key.measuredValue (.double .nan))).2.1
  exact absurd (chain (by decide) (by decide)) (by decide)

/-! ## Native values -/

end Metrology.Attribute
