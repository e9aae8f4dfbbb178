import Metrology.Double.Shortest
import Metrology.Proofs.Text.Digits

/-!
# The nearest double

Rounding looks at a magnitude alone.  How it is written as a quotient or as a decimal
does not matter (`nearestBits_congr`, `Decimal.nearest_mul_pow`).

The magnitude of a finite double is rounded to that double.  Its steps have the unit
of the double as their own, so nothing is cut off.  With this the shortest decimal of
a double is rounded to that double in every case, also if no candidate was.
-/

namespace Metrology

/-! ## Rounding a quotient -/

/-- A common factor does not change the rounding. -/
theorem roundDiv_mul_right (num den : Nat) {k : Nat} (pos : 0 < k) :
    roundDiv (num * k) (den * k) = roundDiv num den := by
  have twice : 2 * (num % den * k) = 2 * (num % den) * k := (Nat.mul_assoc _ _ _).symm
  simp only [roundDiv, Nat.mul_div_mul_right _ _ pos, Nat.mul_mod_mul_right, twice,
    Nat.mul_lt_mul_right pos]

/-- A whole number is rounded to itself. -/
theorem roundDiv_mul_left (n : Nat) {den : Nat} (pos : 0 < den) : roundDiv (n * den) den = n := by
  simp only [roundDiv, Nat.mul_div_cancel _ pos, Nat.mul_mod_left, Nat.mul_zero, if_pos pos]

theorem roundDiv_le (num den : Nat) : roundDiv num den ≤ num / den + 1 := by
  simp only [roundDiv]
  split
  · omega
  · split <;> omega

namespace Double

theorem nearestBits_eq (num den : Nat) : nearestBits num den =
    let unit := (num * stepsPerOne / den).log2 - 52
    min (unit * fractionRange + roundDiv (num * stepsPerOne) (den * 2 ^ unit)) infinityBits := rfl

/-- A common factor does not change the nearest double. -/
theorem nearestBits_mul_right (num den : Nat) {k : Nat} (pos : 0 < k) :
    nearestBits (num * k) (den * k) = nearestBits num den := by
  simp only [nearestBits_eq, Nat.mul_right_comm _ k, Nat.mul_div_mul_right _ _ pos,
    roundDiv_mul_right _ _ pos]

/-- Equal quotients have the same nearest double. -/
theorem nearestBits_congr {num den num' den' : Nat} (pos : 0 < den) (pos' : 0 < den')
    (h : num * den' = num' * den) : nearestBits num den = nearestBits num' den' := by
  rw [← nearestBits_mul_right num den pos', h, Nat.mul_comm den den',
    nearestBits_mul_right num' den' pos]

end Double

namespace Decimal

theorem numerator_eq (d : Decimal) : d.numerator = d.coefficient * 10 ^ d.exponent.toNat := rfl

theorem denominator_eq (d : Decimal) : d.denominator = 10 ^ (-d.exponent).toNat := rfl

theorem denominator_pos (d : Decimal) : 0 < d.denominator := Nat.pow_pos (by decide)

/-- Zeros at the end of a coefficient may as well stand in the exponent, as far as the
magnitude goes. -/
theorem magnitude_mul_pow (negative : Bool) {c : Nat} (pos : 0 < c) (k : Nat) (e : Int) :
    magnitude ⟨negative, c * 10 ^ k, e⟩ = magnitude ⟨negative, c, e + k⟩ := by
  simp only [magnitude, Text.digits_mul_pow pos, List.length_append, List.length_replicate]
  omega

/-- Zeros at the end of a coefficient may as well stand in the exponent. -/
theorem nearest_mul_pow (negative : Bool) {c : Nat} (pos : 0 < c) (k : Nat) (e : Int) :
    nearest ⟨negative, c * 10 ^ k, e⟩ = nearest ⟨negative, c, e + k⟩ := by
  have ne : c ≠ 0 := Nat.pos_iff_ne_zero.mp pos
  have ne' : c * 10 ^ k ≠ 0 := Nat.mul_ne_zero ne (Nat.pow_pos (by decide)).ne'
  have exponents : k + e.toNat + (-(e + k)).toNat = (e + k).toNat + (-e).toNat := by omega
  have cross : numerator ⟨negative, c * 10 ^ k, e⟩ * denominator ⟨negative, c, e + k⟩ =
      numerator ⟨negative, c, e + k⟩ * denominator ⟨negative, c * 10 ^ k, e⟩ := by
    simp only [numerator_eq, denominator_eq]
    rw [Nat.mul_assoc c, Nat.mul_assoc c, Nat.mul_assoc c, ← Nat.pow_add, ← Nat.pow_add,
      ← Nat.pow_add, exponents]
  have bits := Double.nearestBits_congr (denominator_pos _) (denominator_pos _) cross
  simp only [nearest, magnitude_mul_pow negative pos, ne, ne', bits]

end Decimal

/-! ## Finite doubles -/

namespace Double

/-- A double is made of its sign and the bits below. -/
theorem ofMagnitudeBits_magnitudeBits (x : Double) :
    ofMagnitudeBits x.negative x.magnitudeBits = x := by
  have bound := x.bits.toNat_lt
  have parts : x.magnitudeBits + (if x.negative then signBit else 0) = x.bits.toNat := by
    simp only [magnitudeBits, negative, decide_eq_true_eq, signBit, Nat.pow_eq]
    split
    · omega
    · omega
  rw [ofMagnitudeBits, parts, UInt64.ofNat_toNat]

/-- The bits below the sign are kept. -/
theorem magnitudeBits_ofMagnitudeBits (negative : Bool) {magnitude : Nat} (h : magnitude < 2 ^ 63) :
    (ofMagnitudeBits negative magnitude).magnitudeBits = magnitude := by
  simp only [magnitudeBits, ofMagnitudeBits, UInt64.toNat_ofNat', signBit, Nat.pow_eq]
  split <;> omega

/-- The bits of a finite double are put together from its significand and its unit. -/
theorem unit_mul_add_significand (x : Double) :
    x.unit * fractionRange + x.significand = x.magnitudeBits := by
  simp only [unit, significand, fractionRange, Nat.pow_eq]
  split
  · omega
  · omega

theorem steps_eq (x : Double) : x.steps = x.significand * 2 ^ x.unit := rfl

/-- Either the unit is the smallest or the significand has 53 bits. -/
theorem significand_bounds (x : Double) :
    x.significand < 2 ^ 53 ∧ (x.unit = 0 ∨ 2 ^ 52 ≤ x.significand) := by
  simp only [unit, significand, fractionRange, Nat.pow_eq]
  split
  · omega
  · omega

/-- The unit of a double can be told from its steps. -/
theorem log2_steps (x : Double) : x.steps.log2 - 52 = x.unit := by
  obtain ⟨lt, small | le⟩ := x.significand_bounds
  · by_cases zero : x.steps = 0
    · rw [zero, small]
      rfl
    · rw [small]
      have bound : x.steps < 2 ^ 53 := by rwa [steps_eq, small, Nat.pow_zero, Nat.mul_one]
      have log : x.steps.log2 < 53 := (Nat.log2_lt zero).mpr bound
      omega
  · have ne : x.steps ≠ 0 := by
      refine Nat.mul_ne_zero ?_ (Nat.two_pow_pos _).ne'
      omega
    have log : x.steps.log2 = 52 + x.unit := by
      rw [Nat.log2_eq_iff ne, steps_eq, Nat.pow_succ, Nat.pow_add, Nat.mul_right_comm,
        ← Nat.pow_succ]
      exact ⟨Nat.mul_le_mul_right _ le, Nat.mul_lt_mul_of_pos_right lt (Nat.two_pow_pos _)⟩
    omega

theorem stepsPerOne_pos : 0 < stepsPerOne := by decide +kernel

/-- Counted in steps, the magnitude of a finite double is rounded to the double. -/
theorem nearestBits_steps {x : Double} (h : x.isFinite) :
    nearestBits x.steps stepsPerOne = x.magnitudeBits := by
  have finite : x.magnitudeBits ≤ infinityBits := Nat.le_of_lt (of_decide_eq_true h)
  have whole : x.steps * stepsPerOne / stepsPerOne = x.steps :=
    Nat.mul_div_cancel _ stepsPerOne_pos
  have exact : x.steps * stepsPerOne = x.significand * (stepsPerOne * 2 ^ x.unit) := by
    rw [steps_eq, Nat.mul_assoc, Nat.mul_comm (2 ^ x.unit)]
  have pos : 0 < stepsPerOne * 2 ^ x.unit := Nat.mul_pos stepsPerOne_pos (Nat.two_pow_pos _)
  rw [nearestBits_eq, whole, log2_steps, exact]
  simp only [roundDiv_mul_left _ pos, unit_mul_add_significand, Nat.min_eq_left finite]

/-! ## The shortest decimal -/

theorem steps_pos {x : Double} (h : x.isZero = false) : 0 < x.steps := by
  have ne : x.magnitudeBits ≠ 0 := by simpa [isZero] using h
  have parts := x.unit_mul_add_significand
  refine Nat.mul_pos (Nat.pos_iff_ne_zero.mpr fun zero => ?_) (Nat.two_pow_pos _)
  obtain ⟨-, small | le⟩ := x.significand_bounds
  · rw [zero, small, Nat.zero_mul] at parts
    exact ne parts.symm
  · rw [zero] at le
    exact absurd le (by decide)

theorem steps_lt {x : Double} {most : Nat} (h : x.unit ≤ most) : x.steps < 2 ^ 53 * 2 ^ most :=
  Nat.mul_lt_mul_of_lt_of_le x.significand_bounds.1 (Nat.pow_le_pow_right (by decide) h)
    (Nat.two_pow_pos _)

theorem unit_le {x : Double} (h : x.isFinite) : x.unit ≤ 2045 := by
  have finite : x.magnitudeBits < infinityBits := of_decide_eq_true h
  simp only [unit, fractionRange, infinityBits, Nat.pow_eq] at finite ⊢
  omega

/-- The exact value of a double other than zero has a magnitude that is not cut short. -/
theorem magnitude_exactDecimal {x : Double} (h : x.isFinite) (ne : x.isZero = false) :
    -330 ≤ x.exactDecimal.magnitude ∧ x.exactDecimal.magnitude ≤ 310 := by
  -- The kernel compares the powers, so that no step writes them out.
  have least : 10 ^ 743 ≤ Nat.pow 5 1074 := by decide +kernel
  have most : 2 ^ 53 * 2 ^ 2045 * Nat.pow 5 1074 < 10 ^ 1384 := by decide +kernel
  have low : 10 ^ 743 ≤ x.steps * Nat.pow 5 1074 :=
    Nat.le_trans least (Nat.le_mul_of_pos_left _ (steps_pos ne))
  have steps := Nat.le_of_lt (steps_lt (unit_le h))
  have high : x.steps * Nat.pow 5 1074 < 10 ^ 1384 :=
    Nat.lt_of_le_of_lt (Nat.mul_le_mul_right _ steps) most
  have longer := (Text.lt_length_digits_iff (by decide)).mpr low
  have shorter := (Text.length_digits_le_iff (by decide)).mpr high
  simp only [Decimal.magnitude, exactDecimal]
  omega

theorem nearestBits_exactDecimal {x : Double} (h : x.isFinite) :
    nearestBits x.exactDecimal.numerator x.exactDecimal.denominator = x.magnitudeBits := by
  have tens : stepsPerOne * Nat.pow 5 1074 = Nat.pow 10 1074 := by decide +kernel
  have pos : 0 < Nat.pow 5 1074 := by decide +kernel
  have numerator : x.exactDecimal.numerator = x.steps * Nat.pow 5 1074 := Nat.mul_one _
  have denominator : x.exactDecimal.denominator = stepsPerOne * Nat.pow 5 1074 := by
    rw [tens]
    rfl
  rw [numerator, denominator, nearestBits_mul_right _ _ pos, nearestBits_steps h]

/-- The exact decimal of a double is rounded to it. -/
theorem nearest_exactDecimal {x : Double} (h : x.isFinite) (ne : x.isZero = false) :
    x.exactDecimal.nearest = x := by
  obtain ⟨low, high⟩ := magnitude_exactDecimal h ne
  have coefficient : x.exactDecimal.coefficient ≠ 0 :=
    Nat.mul_ne_zero (steps_pos ne).ne' (by decide +kernel)
  have kept : ¬ (x.exactDecimal.coefficient = 0 ∨ x.exactDecimal.magnitude < -330) := by
    rintro (zero | lt)
    · exact coefficient zero
    · exact Int.not_lt.mpr low lt
  rw [Decimal.nearest, if_neg kept, if_neg (Int.not_lt.mpr high), nearestBits_exactDecimal h]
  exact ofMagnitudeBits_magnitudeBits x

/-- The shortest decimal of a double is rounded to it. -/
theorem nearest_shortest {x : Double} (h : x.isFinite) (ne : x.isZero = false) :
    x.shortest.nearest = x := by
  rw [shortest]
  cases found : x.candidates.find? fun d => d.nearest = x with
  | none => exact nearest_exactDecimal h ne
  | some d =>
      have back := List.find?_some found
      exact of_decide_eq_true back

end Double

end Metrology
