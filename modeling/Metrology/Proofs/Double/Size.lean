import Mathlib.Algebra.Order.Field.Basic
import Mathlib.Algebra.Order.Field.Rat
import Mathlib.Tactic.Ring
import Metrology.Proofs.Double.Whole

/-!
# Magnitudes of doubles and decimals

The *size* of a double or of a decimal is its magnitude as a rational number.  An
infinity has a size as well, the power of two that comes after the largest finite double,
which is what its bits say when they are read like those of any other double.  So the
bits order the sizes of all doubles that are numbers (`size_lt_size_iff`).

The size of a decimal lies between two powers of ten that its digits and its exponent
give (`le_size`, `size_lt`).
-/

namespace Metrology

open Text

namespace Double

/-! ## The steps of doubles -/

theorem pow_fiftyThree_mul (u : Nat) : 2 ^ 53 * 2 ^ u = 2 ^ 52 * 2 ^ (u + 1) := by ring

/-- A double with a smaller unit lies below all doubles that are full at the larger one. -/
theorem steps_lt_of_unit_lt {x : Double} {u : Nat} (h : x.unit < u) :
    x.steps < 2 ^ 52 * 2 ^ u := by
  obtain ⟨v, rfl⟩ : ∃ v, u = v + 1 := Nat.exists_eq_succ_of_ne_zero (by omega)
  rw [← pow_fiftyThree_mul]
  exact steps_lt (Nat.le_of_lt_succ h)

/-- A double is a multiple of a power of two, or it is smaller than all doubles with that unit. -/
theorem exists_steps_eq_or_lt (x : Double) (u : Nat) :
    (∃ k, x.steps = k * 2 ^ u) ∨ u ≠ 0 ∧ x.steps < 2 ^ 52 * 2 ^ u := by
  rcases Nat.lt_or_ge x.unit u with lt | le
  · exact .inr ⟨Nat.ne_zero_of_lt lt, steps_lt_of_unit_lt lt⟩
  · left
    refine ⟨x.significand * 2 ^ (x.unit - u), ?_⟩
    rw [Nat.mul_assoc, ← Nat.pow_add, Nat.sub_add_cancel le, steps_eq]

/-- The bits of doubles order their magnitudes. -/
theorem steps_lt_steps {x y : Double} (h : x.magnitudeBits < y.magnitudeBits) :
    x.steps < y.steps := by
  have first := x.unit_mul_add_significand
  have second := y.unit_mul_add_significand
  obtain ⟨most, least⟩ := x.significand_bounds
  obtain ⟨most', least'⟩ := y.significand_bounds
  simp only [fractionRange, Nat.pow_eq] at first second
  rcases Nat.lt_or_ge x.unit y.unit with lt | ge
  · have full : 2 ^ 52 ≤ y.significand := least'.resolve_left (by omega)
    calc x.steps < 2 ^ 52 * 2 ^ y.unit := steps_lt_of_unit_lt lt
      _ ≤ y.steps := Nat.mul_le_mul_right _ full
  · have same : x.unit = y.unit := by omega
    have lt : x.significand < y.significand := by omega
    rw [steps_eq, steps_eq, same]
    exact Nat.mul_lt_mul_of_pos_right lt (Nat.two_pow_pos _)

/-- The order of the steps is that of the bits below the sign. -/
theorem steps_lt_steps_iff {x y : Double} :
    x.steps < y.steps ↔ x.magnitudeBits < y.magnitudeBits := by
  constructor
  · intro lt
    rcases Nat.lt_trichotomy x.magnitudeBits y.magnitudeBits with h | h | h
    · exact h
    · simp only [steps_eq, significand, unit, h, lt_irrefl] at lt
    · exact absurd (steps_lt_steps h) (Nat.lt_asymm lt)
  · exact steps_lt_steps

/-! ## Sizes -/

/-- The magnitude of a double that is a number.  An infinity counts as the power of two that
comes after the largest finite double. -/
def size (x : Double) : ℚ := x.steps / stepsPerOne

theorem cast_stepsPerOne_pos : (0 : ℚ) < stepsPerOne := Nat.cast_pos.mpr stepsPerOne_pos

/-- The bits below the sign order the sizes. -/
theorem size_lt_size_iff {x y : Double} : x.size < y.size ↔ x.magnitudeBits < y.magnitudeBits := by
  rw [size, size, div_lt_div_iff_of_pos_right cast_stepsPerOne_pos, Nat.cast_lt, steps_lt_steps_iff]

theorem size_le_size_iff {x y : Double} : x.size ≤ y.size ↔ x.magnitudeBits ≤ y.magnitudeBits := by
  rw [← not_lt, size_lt_size_iff, not_lt]

/-- Doubles of one size differ in their signs at most. -/
theorem size_eq_size_iff {x y : Double} : x.size = y.size ↔ x.magnitudeBits = y.magnitudeBits := by
  rw [le_antisymm_iff, size_le_size_iff, size_le_size_iff, ← le_antisymm_iff]

/-! ## Infinity -/

/-- The bits of an infinity below its sign. -/
theorem magnitudeBits_infinity (negative : Bool) :
    (infinity negative).magnitudeBits = infinityBits :=
  magnitudeBits_ofMagnitudeBits negative (by decide)

/-- Infinity is the smallest double that is full at its unit. -/
theorem steps_infinity_le (negative : Bool) {u : Nat} (h : 2046 ≤ u) :
    (infinity negative).steps ≤ 2 ^ 52 * 2 ^ u := by
  have significand : (infinity negative).significand = 2 ^ 52 := by cases negative <;> decide
  have unit : (infinity negative).unit = 2046 := by cases negative <;> decide
  rw [steps_eq, significand]
  exact Nat.mul_le_mul_left _ (Nat.pow_le_pow_right Nat.two_pos (unit.trans_le h))

/-- The doubles that are numbers are those with bits up to those of infinity. -/
theorem isNaN_eq_false_iff {x : Double} : x.isNaN = false ↔ x.magnitudeBits ≤ infinityBits := by
  rw [isNaN, decide_eq_false_iff_not, Nat.not_lt]

/-- No double that is a number lies above infinity. -/
theorem steps_le_infinity (negative : Bool) {x : Double} (h : x.isNaN = false) :
    x.steps ≤ (infinity negative).steps := by
  rw [← Nat.not_lt, steps_lt_steps_iff, magnitudeBits_infinity, Nat.not_lt]
  exact isNaN_eq_false_iff.mp h

/-- The largest finite double. -/
def largest : Double := ofMagnitudeBits false (infinityBits - 1)

theorem magnitudeBits_largest : largest.magnitudeBits = infinityBits - 1 :=
  magnitudeBits_ofMagnitudeBits false (by decide)

theorem isNaN_largest : largest.isNaN = false := by
  rw [isNaN_eq_false_iff, magnitudeBits_largest]
  exact Nat.sub_le _ _

/-- The infinities are told by their bits below the sign. -/
theorem isInfinite_iff_magnitudeBits {x : Double} : x.isInfinite ↔ x.magnitudeBits = infinityBits :=
  beq_iff_eq

end Double

namespace Decimal

/-! ## Decimals -/

/-- The magnitude of a decimal, sign left out. -/
def size (d : Decimal) : ℚ := d.coefficient * 10 ^ d.exponent

/-- The size of a decimal as the quotient that is rounded. -/
theorem size_eq (d : Decimal) : d.size = d.numerator / d.denominator := by
  rw [size, numerator_eq, denominator_eq]
  push_cast
  rcases le_total 0 d.exponent with h | h
  · obtain ⟨n, hn⟩ := Int.eq_ofNat_of_zero_le h
    have zero : (-d.exponent).toNat = 0 := by omega
    have whole : d.exponent.toNat = n := by omega
    rw [zero, whole, hn, pow_zero, div_one, zpow_natCast]
  · obtain ⟨n, hn⟩ := Int.eq_ofNat_of_zero_le (Int.neg_nonneg_of_nonpos h)
    have zero : d.exponent.toNat = 0 := by omega
    have whole : (-d.exponent).toNat = n := by omega
    have minus : d.exponent = -(n : Int) := by omega
    rw [zero, whole, minus, pow_zero, mul_one, zpow_neg, zpow_natCast, div_eq_mul_inv]

theorem size_nonneg (d : Decimal) : 0 ≤ d.size :=
  mul_nonneg (Nat.cast_nonneg _) (zpow_nonneg (by norm_num) _)

/-- The size of a decimal lies between the two powers of ten that its digits and its exponent
tell. -/
theorem size_lt (d : Decimal) : d.size < 10 ^ d.magnitude := by
  have some : 0 < (digits d.coefficient).length := List.length_pos_iff.mpr Nat.toDigits_ne_nil
  have digits := (length_digits_le_iff some).mp (Nat.le_refl _)
  have coefficient : (d.coefficient : ℚ) < 10 ^ (Text.digits d.coefficient).length := by
    exact_mod_cast digits
  rw [size, magnitude, zpow_add₀ (by norm_num), zpow_natCast]
  exact mul_lt_mul_of_pos_right coefficient (zpow_pos (by norm_num) _)

/-- A decimal other than zero is at least the power of ten of its first digit. -/
theorem le_size {d : Decimal} (h : d.coefficient ≠ 0) : 10 ^ (d.magnitude - 1) ≤ d.size := by
  obtain ⟨n, length⟩ : ∃ n, (digits d.coefficient).length = n + 1 :=
    Nat.exists_eq_succ_of_ne_zero (List.length_pos_iff.mpr Nat.toDigits_ne_nil).ne'
  have least : 10 ^ n ≤ d.coefficient := by
    cases n with
    | zero => exact Nat.pos_of_ne_zero h
    | succ n => exact (lt_length_digits_iff n.succ_pos).mp (by omega)
  have coefficient : (10 : ℚ) ^ n ≤ d.coefficient := by exact_mod_cast least
  have power : d.magnitude - 1 = n + d.exponent := by
    rw [magnitude, length]
    omega
  rw [size, power, zpow_add₀ (by norm_num), zpow_natCast]
  exact mul_le_mul_of_nonneg_right coefficient (zpow_pos (by norm_num) _).le

/-- A decimal of small magnitude is at most a small power of ten. -/
theorem size_le_of_magnitude_le {d : Decimal} {k : Nat} (h : d.magnitude ≤ -k) :
    d.size * 10 ^ k ≤ 1 := by
  have pos : (0 : ℚ) < 10 ^ k := pow_pos (by norm_num) k
  have below : d.size ≤ 10 ^ (-k : Int) :=
    d.size_lt.le.trans (zpow_le_zpow_right₀ (by norm_num) h)
  rwa [zpow_neg, zpow_natCast, ← one_div, le_div_iff₀ pos] at below

/-- A decimal of large magnitude is at least a large power of ten. -/
theorem pow_le_size_of_lt_magnitude {d : Decimal} {k : Nat} (ne : d.coefficient ≠ 0)
    (h : k < d.magnitude) : 10 ^ k ≤ d.size := by
  refine le_trans ?_ (le_size ne)
  rw [← zpow_natCast]
  exact zpow_le_zpow_right₀ (by norm_num) (by omega)

end Decimal

end Metrology
