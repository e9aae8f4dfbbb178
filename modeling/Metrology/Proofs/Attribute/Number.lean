import Metrology.Attribute.Number
import Metrology.Proofs.Double.Whole

/-!
# Numbers and their text

A double that is a number is settled by the number it stands for, and so is its text.
Every integer has a double that stands for the same number and has the same text
(`Double.ofInt`).  So the text of a number is its identity, whatever domain it is held
in.  Two doubles that are not numbers share a text, but there is no number to share.
-/

namespace Metrology

open Text

/-- The double that stands for a number, if there is one. -/
def ExactNumber.toDouble : ExactNumber → Double
  | negativeZero => .ofMagnitudeBits true 0
  | steps count =>
    .ofMagnitudeBits (count < 0) (Double.nearestBits count.natAbs Double.stepsPerOne)
  | infinity negative => .infinity negative

namespace Double

/-! ## The number of a double -/

theorem number?_of_isFinite {x : Double} (h : x.isFinite) : x.number? =
    if x.negative then some (if x.isZero then .negativeZero else .steps (-Int.ofNat x.steps))
    else some (.steps x.steps) := by
  obtain ⟨number, bounded⟩ := isFinite_iff.mp h
  rw [number?, number, bounded, if_neg Bool.false_ne_true, if_neg Bool.false_ne_true]

theorem toDouble_steps {x : Double} (h : x.isFinite) {count : Int}
    (sign : x.negative = decide (count < 0)) (whole : x.steps = count.natAbs) :
    (ExactNumber.steps count).toDouble = x := by
  rw [ExactNumber.toDouble, ← sign, ← whole, nearestBits_steps h, ofMagnitudeBits_magnitudeBits]

/-- The exact number of a finite double leads back to it. -/
theorem toDouble_of_isFinite {x : Double} (h : x.isFinite) {n : ExactNumber}
    (number : x.number? = some n) : n.toDouble = x := by
  rw [number?_of_isFinite h] at number
  cases sign : x.negative with
  | false =>
      rw [sign, if_neg Bool.false_ne_true] at number
      cases number
      refine toDouble_steps h (sign.trans ?_) rfl
      exact (decide_eq_false (Int.not_lt.mpr (Int.natCast_nonneg _))).symm
  | true =>
      rw [sign, if_pos rfl] at number
      cases zero : x.isZero with
      | true =>
          rw [zero, if_pos rfl] at number
          cases number
          rw [ExactNumber.toDouble, ← sign, ← eq_zero zero]
      | false =>
          rw [zero, if_neg Bool.false_ne_true] at number
          cases number
          have pos : 0 < (x.steps : Int) := Int.natCast_pos.mpr (steps_pos zero)
          refine toDouble_steps h (sign.trans ?_) (Int.natAbs_neg x.steps).symm
          exact (decide_eq_true (Int.neg_neg_of_pos pos)).symm

/-- The number of a double leads back to the double. -/
theorem toDouble_of_number? {x : Double} {n : ExactNumber} (h : x.number? = some n) :
    n.toDouble = x := by
  cases nan : x.isNaN with
  | true =>
      rw [number?, if_pos nan] at h
      cases h
  | false =>
      cases infinite : x.isInfinite with
      | true =>
          rw [number?, nan, if_neg Bool.false_ne_true, if_pos infinite] at h
          cases h
          exact (eq_infinity infinite).symm
      | false => exact toDouble_of_isFinite (isFinite_iff.mpr ⟨nan, infinite⟩) h

/-- Only what is not a number has no exact number. -/
theorem number?_eq_none_iff {x : Double} : x.number? = none ↔ x.isNaN := by
  constructor
  · intro h
    by_contra number
    rw [number?, if_neg number] at h
    split at h
    · cases h
    · split at h <;> cases h
  · intro nan
    rw [number?, if_pos nan]

/-! ## The text of a double -/

/-- The text of a double is read as a double of the same number. -/
theorem exists_read_write (x : Double) :
    ∃ y, read x.write = some y ∧ y.number? = x.number? := by
  cases nan : x.isNaN with
  | true =>
      refine ⟨Double.nan, ?_, ?_⟩
      · rw [write, if_pos nan, read_nanWord]
      · rw [number?_eq_none_iff.mpr nan]
        rfl
  | false => exact ⟨x, read_write nan, rfl⟩

/-- Two doubles with one text, not both without a number, stand for one number. -/
theorem write_eq_iff {x y : Double} : x.write = y.write ∧ ¬ (x.isNaN ∧ y.isNaN) ↔
    ∃ n, x.number? = some n ∧ y.number? = some n := by
  constructor
  · rintro ⟨text, number⟩
    obtain ⟨z, read, same⟩ := exists_read_write x
    obtain ⟨w, read', same'⟩ := exists_read_write y
    rw [text, read'] at read
    cases read
    rw [same'] at same
    rw [← same]
    cases value : y.number? with
    | some n => exact ⟨n, rfl, rfl⟩
    | none =>
        rw [value] at same
        exact absurd ⟨number?_eq_none_iff.mp same.symm, number?_eq_none_iff.mp value⟩ number
  · rintro ⟨n, first, second⟩
    have same : x = y := (toDouble_of_number? first).symm.trans (toDouble_of_number? second)
    refine ⟨congrArg write same, fun nan => ?_⟩
    rw [number?_eq_none_iff.mpr nan.1] at first
    cases first

/-- An integer as a double. -/
def ofInt (n : Int) : Double := Decimal.nearest ⟨n < 0, n.natAbs, 0⟩

/-- The double of an integer of 53 bits is that integer. -/
theorem number?_ofInt {n : Int} (h : n.natAbs < 2 ^ 53) :
    (ofInt n).number? = some (.ofInt n) := by
  obtain ⟨sign, finite, steps⟩ := Decimal.nearest_whole (decide (n < 0)) h
  rw [ofInt, number?_of_isFinite finite, sign, steps]
  by_cases minus : n < 0
  · have zero : (Decimal.nearest ⟨n < 0, n.natAbs, 0⟩).isZero = false := by
      refine Bool.eq_false_iff.mpr fun zero => ?_
      rw [steps_of_isZero zero] at steps
      exact (Nat.mul_pos (Int.natAbs_pos.mpr (Int.ne_of_lt minus)) stepsPerOne_pos).ne steps
    have count : -Int.ofNat (n.natAbs * stepsPerOne) = n * stepsPerOne := by
      rw [Int.ofNat_eq_natCast, Int.natCast_mul,
        Int.ofNat_natAbs_of_nonpos (Int.le_of_lt minus), Int.neg_mul, Int.neg_neg]
    rw [if_pos (decide_eq_true minus), zero, if_neg Bool.false_ne_true, count]
    rfl
  · have count : ((n.natAbs * stepsPerOne : Nat) : Int) = n * stepsPerOne := by
      rw [Int.natCast_mul, Int.natAbs_of_nonneg (Int.not_lt.mp minus)]
    rw [if_neg (by simpa using minus), count]
    rfl

/-- The double of an integer with up to fifteen digits is written like the integer. -/
theorem write_ofInt {n : Int} (h : n.natAbs < 10 ^ 15) : (ofInt n).write = writeInteger n := by
  obtain ⟨sign, finite, steps⟩ := Decimal.nearest_whole (n := n.natAbs) (decide (n < 0)) (by omega)
  rcases Nat.eq_zero_or_pos n.natAbs with zero | pos
  · rw [Int.natAbs_eq_zero.mp zero]
    rfl
  · have text := write_whole finite pos h steps
    rw [sign] at text
    rw [ofInt, text, writeInteger, Decimal.signed]
    simp only [decide_eq_true_eq]

end Double

namespace Value

/-! ## Values -/

theorem exists_double_of_int {n : Int} (h : n.natAbs < 10 ^ 15) : ∃ x : Double,
    writeInteger n = x.write ∧ some (ExactNumber.ofInt n) = x.number? ∧ false = x.isNaN := by
  have number := Double.number?_ofInt (n := n) (by omega)
  refine ⟨.ofInt n, (Double.write_ofInt h).symm, number.symm, ?_⟩
  refine (Bool.eq_false_iff.mpr fun nan => ?_).symm
  rw [Double.number?_eq_none_iff.mpr nan] at number
  cases number

/-- Every numeric value has a double that stands for the same number and has the same
text. -/
theorem exists_double {v : Value} (h : v.isNumeric) : ∃ x : Double,
    v.canonicalText = some (String.ofList x.write) ∧ v.number? = x.number? ∧
      v.isNaN = x.isNaN := by
  cases v with
  | absent => cases h
  | text _ => cases h
  | timestamp _ => cases h
  | double x => exact ⟨x, rfl, rfl, rfl⟩
  | shortInteger n =>
      have low := n.le_toInt
      have high := n.toInt_lt
      obtain ⟨x, text, number, nan⟩ := exists_double_of_int (n := n.toInt) (by omega)
      exact ⟨x, congrArg (some <| String.ofList ·) text, number, nan⟩
  | integer n =>
      have low := n.le_toInt
      have high := n.toInt_lt
      obtain ⟨x, text, number, nan⟩ := exists_double_of_int (n := n.toInt) (by omega)
      exact ⟨x, congrArg (some <| String.ofList ·) text, number, nan⟩

end Value

end Metrology
