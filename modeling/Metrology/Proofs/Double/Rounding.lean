import Mathlib.Algebra.Order.Ring.Abs
import Mathlib.Tactic.Linarith
import Mathlib.Tactic.Positivity
import Metrology.Proofs.Double.Size

/-!
# Correct rounding

A decimal is rounded to the double that is nearest to it, and of two that are equally
near to the one with the even significand (`Decimal.nearest_eq_iff`).  Infinity takes part
in this with the size it has, and so a decimal overflows from halfway between the largest
finite double and infinity on (`isInfinite_iff`).

Rounding cuts a magnitude into cells of one unit and rounds the number of cells.  Doubles
with this unit or a larger one are whole numbers of cells, and the rounded number is the
nearest one of these.  Doubles with a smaller unit lie below the smallest double with
this unit, and that one lies below the magnitude.

There is only one nearest double, because between two with even significands there is a
third one.  From this it follows that rounding keeps the order (`IsNearest.mono`).
-/

namespace Metrology

open Text

/-! ## Rounding to a whole number -/

/-- What is rounded to a whole number is off by a half at most, and if it is off by a half
the whole number is even. -/
theorem roundDiv_bounds (num : Nat) {den : Nat} (pos : 0 < den) :
    2 * num ≤ 2 * (roundDiv num den * den) + den ∧
    2 * (roundDiv num den * den) ≤ 2 * num + den ∧
    (2 * num = 2 * (roundDiv num den * den) + den ∨
      2 * (roundDiv num den * den) = 2 * num + den → roundDiv num den % 2 = 0) := by
  have parts : num / den * den + num % den = num := Nat.div_add_mod' num den
  have rest : num % den < den := Nat.mod_lt num pos
  have next : (num / den + 1) * den = num / den * den + den := Nat.succ_mul _ den
  simp only [roundDiv]
  generalize num / den = low at parts next ⊢
  generalize num % den = r at parts rest ⊢
  split
  next below => omega
  next =>
    split
    next above =>
      rw [next]
      omega
    next =>
      rcases Nat.mod_two_eq_zero_or_one low with even | odd
      · rw [even, Nat.add_zero]
        omega
      · rw [odd, next]
        omega

/-- A whole number is the one that a magnitude is rounded to. -/
structure IsRounded (m : Nat) (t : ℚ) : Prop where
  /-- It is off by a half at most. -/
  near : |t - m| ≤ 1 / 2
  /-- If it is off by a half it is even. -/
  even : |t - m| = 1 / 2 → m % 2 = 0

theorem isRounded_roundDiv (num : Nat) {den : Nat} (pos : 0 < den) :
    IsRounded (roundDiv num den) (num / den) := by
  obtain ⟨high, low, even⟩ := roundDiv_bounds num pos
  generalize roundDiv num den = m at high low even ⊢
  have pos' : (0 : ℚ) < den := Nat.cast_pos.mpr pos
  have high' : (2 * num : ℚ) ≤ 2 * (m * den) + den := by exact_mod_cast high
  have low' : (2 * (m * den) : ℚ) ≤ 2 * num + den := by exact_mod_cast low
  have off : (num : ℚ) / den - m = (num - m * den) / den := by
    rw [sub_div, mul_div_cancel_right₀ _ pos'.ne']
  constructor
  · rw [off, abs_div, abs_of_pos pos', div_le_iff₀ pos', abs_le]
    constructor
    · linarith
    · linarith
  · intro half
    rw [off, abs_div, abs_of_pos pos', div_eq_iff pos'.ne'] at half
    apply even
    rcases abs_cases ((num : ℚ) - m * den) with ⟨same, -⟩ | ⟨same, -⟩
    · left
      have above : (2 * num : ℚ) = 2 * (m * den) + den := by linarith
      exact_mod_cast above
    · right
      have below : (2 * (m * den) : ℚ) = 2 * num + den := by linarith
      exact_mod_cast below

/-- No other whole number is nearer, and if one is as near then the rounded one is even. -/
theorem IsRounded.nearest {m : Nat} {t : ℚ} (h : IsRounded m t) (k : Nat) :
    |t - m| ≤ |t - k| ∧ (|t - m| = |t - k| → (k : ℚ) ≠ m → m % 2 = 0) := by
  by_cases same : k = m
  · rw [same]
    exact ⟨le_refl _, fun _ ne => absurd rfl ne⟩
  · have apart : (1 : ℚ) ≤ |(m : ℚ) - k| := by
      have ne : (m : Int) - k ≠ 0 := by omega
      exact_mod_cast Int.one_le_abs ne
    have triangle : |(m : ℚ) - k| ≤ |t - m| + |t - k| := by
      rw [abs_sub_comm t m]
      exact abs_sub_le _ _ _
    have near := h.near
    refine ⟨by linarith, fun tie _ => h.even ?_⟩
    linarith

/-- Rounding stays between whole numbers. -/
theorem IsRounded.le {m k : Nat} {t : ℚ} (h : IsRounded m t) (le : t ≤ k) : m ≤ k := by
  have near := (abs_le.mp h.near).1
  by_contra above
  have next : (k : ℚ) + 1 ≤ m := by exact_mod_cast Nat.lt_of_not_le above
  linarith

theorem IsRounded.ge {m k : Nat} {t : ℚ} (h : IsRounded m t) (ge : k ≤ t) : k ≤ m := by
  have near := (abs_le.mp h.near).2
  by_contra below
  have next : (m : ℚ) + 1 ≤ k := by exact_mod_cast Nat.lt_of_not_le below
  linarith

namespace Double

/-! ## Nearest doubles -/

/-- A double is the nearest one to a magnitude. -/
structure IsNearest (x : Double) (q : ℚ) : Prop where
  /-- It is a number. -/
  number : x.isNaN = false
  /-- No other double is nearer. -/
  nearest (y : Double) : y.isNaN = false → |q - x.size| ≤ |q - y.size|
  /-- If another one is as near, its own significand is even. -/
  even (y : Double) : y.isNaN = false → |q - x.size| = |q - y.size| → y.size ≠ x.size →
    x.significand % 2 = 0

/-- Counted in steps, what is nearer is nearer as well. -/
theorem isNearest_of_steps {x : Double} {q : ℚ} (number : x.isNaN = false)
    (nearest : ∀ y : Double, y.isNaN = false →
      |q * stepsPerOne - x.steps| ≤ |q * stepsPerOne - y.steps| ∧
      (|q * stepsPerOne - x.steps| = |q * stepsPerOne - y.steps| → (y.steps : ℚ) ≠ x.steps →
        x.significand % 2 = 0)) : x.IsNearest q := by
  have pos := cast_stepsPerOne_pos
  have scaled (y : Double) : |q - y.size| = |q * stepsPerOne - y.steps| / stepsPerOne := by
    rw [size, ← abs_of_pos pos, ← abs_div, abs_of_pos pos, sub_div, mul_div_cancel_right₀ _ pos.ne']
  constructor
  · exact number
  · intro y other
    rw [scaled, scaled, div_le_div_iff_of_pos_right pos]
    exact (nearest y other).1
  · intro y other tie ne
    rw [scaled, scaled, div_left_inj' pos.ne'] at tie
    refine (nearest y other).2 tie fun same => ne ?_
    rw [size, size, same]

/-- A multiple of a power of two, with the multiplier rounded, is nearest if the multiplier has
as many bits as it can have. -/
theorem nearest_steps_of_isRounded {m u : Nat} {r : ℚ} (h : IsRounded m (r / 2 ^ u))
    (low : u = 0 ∨ (2 : ℚ) ^ 52 ≤ r / 2 ^ u) (y : Double) :
    |r - (m * 2 ^ u : Nat)| ≤ |r - y.steps| ∧
      (|r - (m * 2 ^ u : Nat)| = |r - y.steps| → (y.steps : ℚ) ≠ (m * 2 ^ u : Nat) →
        m % 2 = 0) := by
  have pos : (0 : ℚ) < 2 ^ u := by positivity
  have scaled (k : ℚ) : |r - k * 2 ^ u| = |r / 2 ^ u - k| * 2 ^ u := by
    rw [← abs_of_pos pos, ← abs_mul, abs_of_pos pos, sub_mul, div_mul_cancel₀ _ pos.ne']
  have whole : r = r / 2 ^ u * 2 ^ u := (div_mul_cancel₀ _ pos.ne').symm
  generalize r / 2 ^ u = t at h low scaled whole
  push_cast
  rcases y.exists_steps_eq_or_lt u with ⟨k, multiple⟩ | ⟨ne, less⟩
  · obtain ⟨near, even⟩ := h.nearest k
    rw [multiple]
    push_cast
    rw [scaled, scaled, mul_le_mul_iff_left₀ pos]
    refine ⟨near, fun tie ne => even ?_ fun same => ne ?_⟩
    · exact mul_right_cancel₀ pos.ne' tie
    · rw [same]
  · -- The smallest multiple with that many bits lies between, and it is not nearer.
    have full := low.resolve_left ne
    have less' : (y.steps : ℚ) < 2 ^ 52 * 2 ^ u := by exact_mod_cast less
    have near : |t - m| ≤ |t - 2 ^ 52| := by exact_mod_cast (h.nearest (2 ^ 52)).1
    rw [abs_of_nonneg (a := t - 2 ^ 52) (by linarith)] at near
    have farther : |r - m * 2 ^ u| < |r - y.steps| := by
      calc |r - m * 2 ^ u| = |t - m| * 2 ^ u := scaled m
        _ ≤ (t - 2 ^ 52) * 2 ^ u := mul_le_mul_of_nonneg_right near pos.le
        _ = r - 2 ^ 52 * 2 ^ u := by rw [sub_mul, ← whole]
        _ < r - y.steps := by linarith
        _ ≤ |r - y.steps| := le_abs_self _
    exact ⟨farther.le, fun tie => absurd tie farther.ne⟩

/-! ## The bits of the nearest double -/

/-- Dividing by the power of two that rounding takes out leaves 53 bits, if there are so many. -/
theorem unit_bounds (n : Nat) :
    (n.log2 - 52 = 0 ∨ 2 ^ 52 * 2 ^ (n.log2 - 52) ≤ n) ∧ n < 2 ^ 53 * 2 ^ (n.log2 - 52) := by
  constructor
  · rcases Nat.lt_or_ge 52 n.log2 with long | short
    · right
      have ne : n ≠ 0 := by
        rintro rfl
        exact absurd long (by decide)
      rw [← Nat.pow_add, Nat.add_sub_cancel' (Nat.le_of_lt long)]
      exact Nat.log2_self_le ne
    · exact .inl (Nat.sub_eq_zero_of_le short)
  · calc n < 2 ^ (n.log2 + 1) := Nat.lt_log2_self
      _ ≤ 2 ^ (53 + (n.log2 - 52)) := Nat.pow_le_pow_right (by decide) (by omega)
      _ = 2 ^ 53 * 2 ^ (n.log2 - 52) := Nat.pow_add ..

/-- The bits of the nearest double are those of a rounded significand and the unit that leaves
53 bits for it. -/
theorem exists_nearestBits_eq (num : Nat) {den : Nat} (pos : 0 < den) : ∃ u m : Nat,
    nearestBits num den = min (u * fractionRange + m) infinityBits ∧
      IsRounded m ((num : ℚ) / den * stepsPerOne / 2 ^ u) ∧
      (u = 0 ∨ (2 : ℚ) ^ 52 ≤ (num : ℚ) / den * stepsPerOne / 2 ^ u) ∧
      (u = 0 ∨ 2 ^ 52 ≤ m) ∧ m ≤ 2 ^ 53 := by
  obtain ⟨low, high⟩ := unit_bounds (num * stepsPerOne / den)
  generalize unit : (num * stepsPerOne / den).log2 - 52 = u at low high
  have den' : (0 : ℚ) < den := Nat.cast_pos.mpr pos
  have power : (0 : ℚ) < 2 ^ u := by positivity
  have rounded := isRounded_roundDiv (num * stepsPerOne) (Nat.mul_pos pos (Nat.two_pow_pos u))
  have quotient : ((num * stepsPerOne : Nat) : ℚ) / (den * 2 ^ u : Nat) =
      num / den * stepsPerOne / 2 ^ u := by
    push_cast
    rw [← div_div, div_mul_eq_mul_div]
  have cells : (0 : ℚ) < (den * 2 ^ u : Nat) :=
    Nat.cast_pos.mpr (Nat.mul_pos pos (Nat.two_pow_pos u))
  have full : u = 0 ∨ ((2 ^ 52 : Nat) : ℚ) ≤ num / den * stepsPerOne / 2 ^ u := by
    refine low.imp_right fun least => ?_
    rw [Nat.le_div_iff_mul_le pos, Nat.mul_assoc, Nat.mul_comm (2 ^ u)] at least
    rw [← quotient, le_div_iff₀ cells]
    exact_mod_cast least
  have bounded : (num : ℚ) / den * stepsPerOne / 2 ^ u ≤ (2 ^ 53 : Nat) := by
    rw [Nat.div_lt_iff_lt_mul pos, Nat.mul_assoc, Nat.mul_comm (2 ^ u)] at high
    rw [← quotient, div_le_iff₀ cells]
    exact_mod_cast high.le
  rw [quotient] at rounded
  refine ⟨u, _, ?_, rounded, ?_, full.imp_right rounded.ge, rounded.le bounded⟩
  · rw [nearestBits_eq]
    simp only [unit]
  · exact_mod_cast full

/-- Bits that are put together from a significand and a unit stand for their product, also if
the significand has grown to the next power of two. -/
theorem steps_of_parts {x : Double} {unit significand : Nat}
    (bits : x.magnitudeBits = unit * fractionRange + significand)
    (low : unit = 0 ∨ 2 ^ 52 ≤ significand) (high : significand ≤ 2 ^ 53) :
    x.steps = significand * 2 ^ unit ∧ x.significand % 2 = significand % 2 := by
  have parts : x.significand = significand ∧ x.unit = unit ∨
      significand = 2 * x.significand ∧ x.unit = unit + 1 ∧ x.significand = 2 ^ 52 := by
    simp only [Double.significand, Double.unit, bits, fractionRange, Nat.pow_eq]
    split <;> omega
  rcases parts with ⟨same, unit⟩ | ⟨twice, unit, even⟩
  · rw [steps_eq, same, unit]
    exact ⟨rfl, rfl⟩
  · rw [steps_eq, twice, unit, Nat.pow_succ', Nat.mul_left_comm, Nat.mul_assoc]
    refine ⟨rfl, ?_⟩
    omega

/-- What is at most half a step has zero as its nearest double. -/
theorem isNearest_zero (negative : Bool) {q : ℚ} (nonneg : 0 ≤ q)
    (h : 2 * (q * stepsPerOne) ≤ 1) : (ofMagnitudeBits negative 0).IsNearest q := by
  have bits : (ofMagnitudeBits negative 0).magnitudeBits = 0 * fractionRange + 0 :=
    magnitudeBits_ofMagnitudeBits negative (by decide)
  obtain ⟨steps, parity⟩ := steps_of_parts bits (.inl rfl) (Nat.zero_le _)
  have least : 0 ≤ q * stepsPerOne := mul_nonneg nonneg cast_stepsPerOne_pos.le
  have rounded : IsRounded 0 (q * stepsPerOne / 2 ^ 0) := by
    rw [pow_zero, div_one]
    constructor
    · rw [Nat.cast_zero, sub_zero, abs_of_nonneg least]
      linarith
    · exact fun _ => rfl
  refine isNearest_of_steps (isNaN_eq_false_iff.mpr (bits.trans_le (Nat.zero_le _))) ?_
  intro y _
  rw [steps, parity]
  exact nearest_steps_of_isRounded rounded (.inl rfl) y

/-- What is not smaller than infinity has infinity as its nearest double. -/
theorem isNearest_infinity (negative : Bool) {q : ℚ}
    (h : ((infinity negative).steps : ℚ) ≤ q * stepsPerOne) : (infinity negative).IsNearest q := by
  have number : (infinity negative).isNaN = false :=
    isNaN_eq_false_iff.mpr (magnitudeBits_infinity negative).le
  refine isNearest_of_steps number fun y other => ?_
  have less : (y.steps : ℚ) ≤ (infinity negative).steps :=
    Nat.cast_le.mpr (steps_le_infinity negative other)
  rw [abs_of_nonneg (by linarith), abs_of_nonneg (by linarith)]
  refine ⟨by linarith, fun tie ne => absurd ?_ ne⟩
  linarith

/-- The double that a quotient is rounded to is the nearest one. -/
theorem isNearest_nearestBits (negative : Bool) (num : Nat) {den : Nat} (pos : 0 < den) :
    (ofMagnitudeBits negative (nearestBits num den)).IsNearest (num / den) := by
  obtain ⟨u, m, bits, rounded, low, full, bounded⟩ := exists_nearestBits_eq num pos
  generalize (num : ℚ) / den = q at rounded low ⊢
  rw [bits]
  rcases Nat.lt_or_ge infinityBits (u * fractionRange + m) with above | within
  · have large : 2046 ≤ u := by
      simp only [fractionRange, infinityBits, Nat.pow_eq] at above
      omega
    have least := low.resolve_left (by omega)
    rw [le_div_iff₀ (by positivity)] at least
    rw [Nat.min_eq_right above.le]
    refine isNearest_infinity negative (le_trans ?_ least)
    exact_mod_cast steps_infinity_le negative large
  · rw [Nat.min_eq_left within]
    have back := magnitudeBits_ofMagnitudeBits negative
      (Nat.lt_of_le_of_lt within (show infinityBits < 2 ^ 63 by decide))
    obtain ⟨steps, parity⟩ := steps_of_parts back full bounded
    refine isNearest_of_steps (isNaN_eq_false_iff.mpr (back.trans_le within)) ?_
    intro y _
    rw [steps, parity]
    exact nearest_steps_of_isRounded rounded low y

/-- A product is the double nearest to the product of the magnitudes. -/
theorem isNearest_times (x y : Double) : (x.times y).IsNearest (x.size * y.size) := by
  have near := isNearest_nearestBits (x.negative != y.negative) (x.steps * y.steps)
    (Nat.mul_pos stepsPerOne_pos stepsPerOne_pos)
  rwa [Nat.cast_mul, Nat.cast_mul, ← div_mul_div_comm] at near

/-- A quotient is the double nearest to the quotient of the magnitudes. -/
theorem isNearest_dividedBy (x : Double) {y : Double} (h : y.isZero = false) :
    (x.dividedBy y).IsNearest (x.size / y.size) := by
  have near := isNearest_nearestBits (x.negative != y.negative) x.steps (steps_pos h)
  rwa [← div_div_div_cancel_right₀ cast_stepsPerOne_pos.ne' (x.steps : ℚ)] at near

/-! ## Only one nearest double -/

theorem magnitudeBits_mod_two (x : Double) : x.magnitudeBits % 2 = x.significand % 2 := by
  have parts := x.unit_mul_add_significand
  simp only [fractionRange, Nat.pow_eq] at parts
  omega

/-- Of two doubles with even significands there is a third one between. -/
theorem exists_between {x y : Double} (hx : x.significand % 2 = 0) (hy : y.significand % 2 = 0)
    (number : y.isNaN = false) (lt : x.size < y.size) :
    ∃ z : Double, z.isNaN = false ∧ x.size < z.size ∧ z.size < y.size := by
  rw [← magnitudeBits_mod_two] at hx hy
  rw [size_lt_size_iff] at lt
  have bounded := isNaN_eq_false_iff.mp number
  have bits : (ofMagnitudeBits false (x.magnitudeBits + 1)).magnitudeBits = x.magnitudeBits + 1 :=
    magnitudeBits_ofMagnitudeBits false
      (Nat.lt_of_le_of_lt (by omega) (show infinityBits < 2 ^ 63 by decide))
  refine ⟨ofMagnitudeBits false (x.magnitudeBits + 1), isNaN_eq_false_iff.mpr ?_, ?_, ?_⟩
  · omega
  · rw [size_lt_size_iff]
    omega
  · rw [size_lt_size_iff]
    omega

section Halfway

variable {a b q : ℚ}

/-- What is as near to the smaller one of two lies in the lower half. -/
theorem two_mul_le_of_near (lt : a < b) (h : |q - a| ≤ |q - b|) : 2 * q ≤ a + b := by
  by_contra above
  have nearer : |q - b| < q - a := abs_lt.mpr ⟨by linarith, by linarith⟩
  have le := le_abs_self (q - a)
  linarith

theorem le_two_mul_of_near (lt : a < b) (h : |q - b| ≤ |q - a|) : a + b ≤ 2 * q := by
  by_contra below
  have nearer : |q - a| < b - q := abs_lt.mpr ⟨by linarith, by linarith⟩
  have le := neg_le_abs (q - b)
  linarith

end Halfway

namespace IsNearest

variable {x y : Double} {p q : ℚ}

/-- A magnitude has one nearest double, but for the sign. -/
theorem size_le (hx : x.IsNearest q) (hy : y.IsNearest q) : y.size ≤ x.size := by
  by_contra lt
  have lt := not_le.mp lt
  have left := hx.nearest y hy.number
  have right := hy.nearest x hx.number
  have tie := le_antisymm left right
  -- Two that are equally near are both even, and so there is a nearer one between them.
  obtain ⟨z, number, low, high⟩ := exists_between (hx.even y hy.number tie lt.ne')
    (hy.even x hx.number tie.symm lt.ne) hy.number lt
  have halfway := two_mul_le_of_near lt left
  have halfway' := le_two_mul_of_near lt right
  have nearer : |q - z.size| < q - x.size := abs_lt.mpr ⟨by linarith, by linarith⟩
  have near := hx.nearest z number
  have le := le_abs_self (q - x.size)
  linarith

/-- Rounding keeps the order of magnitudes. -/
theorem mono (hx : x.IsNearest q) (hy : y.IsNearest p) (le : p ≤ q) : y.size ≤ x.size := by
  by_contra lt
  have lt := not_le.mp lt
  have low := two_mul_le_of_near lt (hx.nearest y hy.number)
  have high := le_two_mul_of_near lt (hy.nearest x hx.number)
  have same : p = q := by linarith
  rw [same] at hy
  exact absurd (hx.size_le hy) (not_le.mpr lt)

/-- Sign and nearness settle a double. -/
theorem eq (hx : x.IsNearest q) (hy : y.IsNearest q) (sign : x.negative = y.negative) : x = y := by
  have bits := size_eq_size_iff.mp (le_antisymm (hy.size_le hx) (hx.size_le hy))
  rw [← ofMagnitudeBits_magnitudeBits x, ← ofMagnitudeBits_magnitudeBits y, sign, bits]

end IsNearest

/-! ## Overflow -/

/-- The magnitude halfway between the largest finite double and infinity. -/
def overflowSize : ℚ := (Nat.pow 2 1024 - Nat.pow 2 970 : Nat)

theorem two_mul_overflowSize : 2 * overflowSize = largest.size + (infinity false).size := by
  have steps : 2 * (Nat.pow 2 1024 - Nat.pow 2 970) * stepsPerOne =
      largest.steps + (infinity false).steps := by decide +kernel
  rw [size, size, ← add_div, eq_div_iff cast_stepsPerOne_pos.ne', overflowSize]
  generalize Nat.pow 2 1024 - Nat.pow 2 970 = halfway at steps ⊢
  generalize stepsPerOne = one at steps ⊢
  exact_mod_cast steps

/-- Infinity is the nearest double from halfway to it on. -/
theorem IsNearest.isInfinite_iff {x : Double} {q : ℚ} (h : x.IsNearest q) :
    x.isInfinite ↔ overflowSize ≤ q := by
  have halfway := two_mul_overflowSize
  have infinite := magnitudeBits_infinity false
  have number : (infinity false).isNaN = false := isNaN_eq_false_iff.mpr infinite.le
  have most := magnitudeBits_largest
  rw [isInfinite_iff_magnitudeBits]
  constructor
  · intro bits
    have same : x.size = (infinity false).size := size_eq_size_iff.mpr (bits.trans infinite.symm)
    have gap : largest.size < x.size := by
      rw [size_lt_size_iff, most, bits]
      decide
    have upper := le_two_mul_of_near gap (h.nearest largest isNaN_largest)
    linarith
  · intro overflow
    by_contra finite
    have below := Nat.lt_of_le_of_ne (isNaN_eq_false_iff.mp h.number) finite
    have gap : x.size < (infinity false).size := by
      rwa [size_lt_size_iff, infinite]
    have le : x.size ≤ largest.size := by
      rw [size_le_size_iff, most]
      exact Nat.le_sub_one_of_lt below
    have near := h.nearest (infinity false) number
    have lower := two_mul_le_of_near gap near
    -- Nothing is left but the largest double, and its significand is odd.
    have bits : x.magnitudeBits = largest.magnitudeBits := size_eq_size_iff.mp (by linarith)
    have tie : |q - x.size| = |q - (infinity false).size| := by
      rw [abs_of_nonneg (by linarith), abs_of_nonpos (by linarith)]
      linarith
    have even := h.even (infinity false) number tie gap.ne'
    rw [← magnitudeBits_mod_two, bits, most] at even
    exact absurd even (by decide)

end Double

namespace Decimal

/-! ## Decimals -/

/-- Smaller than half a step. -/
theorem two_mul_size_le {d : Decimal} (h : d.magnitude < -330) :
    2 * (d.size * Double.stepsPerOne) ≤ 1 := by
  obtain ⟨k, exponent⟩ : ∃ k, 330 = k := ⟨_, rfl⟩
  have steps : 2 * Double.stepsPerOne ≤ 10 ^ k := by
    cases exponent
    decide +kernel
  have steps' : (2 * Double.stepsPerOne : ℚ) ≤ 10 ^ k := by exact_mod_cast steps
  calc 2 * (d.size * Double.stepsPerOne)
      = d.size * (2 * Double.stepsPerOne) := mul_left_comm _ _ _
    _ ≤ d.size * 10 ^ k := mul_le_mul_of_nonneg_left steps' d.size_nonneg
    _ ≤ 1 := size_le_of_magnitude_le (by omega)

/-- Not smaller than infinity. -/
theorem steps_infinity_le_size {d : Decimal} (ne : d.coefficient ≠ 0) (h : 310 < d.magnitude) :
    ((Double.infinity d.negative).steps : ℚ) ≤ d.size * Double.stepsPerOne := by
  obtain ⟨k, exponent⟩ : ∃ k, 310 = k := ⟨_, rfl⟩
  have steps : (Double.infinity d.negative).steps ≤ 10 ^ k * Double.stepsPerOne := by
    cases exponent
    cases d.negative <;> decide +kernel
  have steps' : ((Double.infinity d.negative).steps : ℚ) ≤ 10 ^ k * Double.stepsPerOne := by
    exact_mod_cast steps
  refine steps'.trans (mul_le_mul_of_nonneg_right ?_ Double.cast_stepsPerOne_pos.le)
  exact pow_le_size_of_lt_magnitude ne (by omega)

/-- A decimal is rounded to the nearest double.  What is cut to zero or to infinity has that as
its nearest double as well. -/
theorem isNearest_nearest (d : Decimal) : d.nearest.IsNearest d.size := by
  rw [nearest]
  split
  next small =>
    refine Double.isNearest_zero d.negative d.size_nonneg ?_
    rcases small with zero | small
    · rw [size, zero, Nat.cast_zero, zero_mul, zero_mul, mul_zero]
      exact zero_le_one
    · exact two_mul_size_le small
  next kept =>
    split
    next large =>
      have ne : d.coefficient ≠ 0 := fun zero => kept (.inl zero)
      exact Double.isNearest_infinity d.negative (steps_infinity_le_size ne large)
    next =>
      rw [size_eq]
      exact Double.isNearest_nearestBits d.negative d.numerator d.denominator_pos

/-- The sign of a decimal is that of its double. -/
theorem negative_nearest (d : Decimal) : d.nearest.negative = d.negative := by
  have bounded : Double.nearestBits d.numerator d.denominator < 2 ^ 63 :=
    Nat.lt_of_le_of_lt (Nat.min_le_right _ _) (show Double.infinityBits < 2 ^ 63 by decide)
  rw [nearest]
  split
  next => exact Double.negative_ofMagnitudeBits _ (by decide)
  next =>
    split
    next => exact Double.negative_ofMagnitudeBits _ (by decide)
    next => exact Double.negative_ofMagnitudeBits _ bounded

/-- The double nearest to a magnitude, with the sign of the decimal, is the one it is rounded to. -/
theorem nearest_eq_iff {d : Decimal} {x : Double} :
    d.nearest = x ↔ x.negative = d.negative ∧ x.IsNearest d.size := by
  constructor
  · rintro rfl
    exact ⟨d.negative_nearest, d.isNearest_nearest⟩
  · rintro ⟨sign, near⟩
    exact d.isNearest_nearest.eq near (d.negative_nearest.trans sign.symm)

end Decimal

end Metrology
