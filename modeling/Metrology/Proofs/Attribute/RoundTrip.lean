import Metrology.Attribute.Basic
import Metrology.Proofs.Calendar.Timestamp
import Metrology.Proofs.Double.Text

/-!
# Values and their text

An attribute holds the canonical text of its value and answers from the text alone.
So it makes no difference whether it was built from the value or from the text of the
value, and what it answers is what the text keeps of the value.
-/

namespace Metrology.Attribute

open Calendar (Timestamp)

theorem asDouble?_of_text {a : Attribute} {s : String} (h : a.text = some s) :
    a.asDouble? = Value.readDouble s := by rw [asDouble?, h, Option.bind_some]

theorem asInstant?_of_text {a : Attribute} {s : String} (h : a.text = some s) :
    a.asInstant? = Value.readInstant s := by rw [asInstant?, h, Option.bind_some]

/-! ## Doubles -/

/-- The text of a double keeps its bits, and what is not a number stays so. -/
theorem asDouble?_double (key : Key) (x : Double) :
    ∃ y, (ofValue key (.double x)).asDouble? = some y ∧
      (ofText key (String.ofList x.write)).asDouble? = some y ∧
      (x.isNaN → y.isNaN) ∧ (¬ x.isNaN → y = x) := by
  have native : (ofValue key (.double x)).asDouble? = Double.read x.write := by
    rw [asDouble?_of_text rfl, Value.readDouble, String.toList_ofList]
  have textual : (ofText key (String.ofList x.write)).asDouble? = Double.read x.write := by
    rw [asDouble?_of_text rfl, Value.readDouble, String.toList_ofList]
  rw [native, textual]
  by_cases h : x.isNaN
  · have read : Double.read x.write = some Double.nan := by
      rw [Double.write, if_pos h, Double.read_nanWord]
    exact ⟨Double.nan, read, read, fun _ => rfl, absurd h⟩
  · have read : Double.read x.write = some x := Double.read_write (Bool.eq_false_iff.mpr h)
    exact ⟨x, read, read, fun nan => absurd nan h, fun _ => rfl⟩

/-! ## Timestamps -/

end Metrology.Attribute
