import Metrology.Json.Number
import Metrology.Proofs.Double.Rounding
import Metrology.Proofs.Text.Integer

/-!
# Digits as numbers of JSON

What a run of digits is read as, where neither a point nor an exponent follows.

Whether it is an integer is a matter of size, and minus zero is none
(`integer?_ofDigits`).

The double is that of a front of the digits, the longest one that fits 64 bits
(`exists_takeSignificand`).  If this is all of them, nothing is left to scale, and the
double is the nearest one (`double?_ofDigits_of_lt`).  Otherwise the front is scaled by
ten for each digit behind it (`exists_double?_ofDigits_eq`).  That is one rounding more, of
the product of two doubles (`isNearest_of_scale?`), and it is this product that may be too
large (`scale?_eq_none_iff`).
-/

namespace Metrology.Json.Number

open Text

/-- The number with the given digits, without point and exponent. -/
def ofDigits (negative : Bool) (ds : List Char) : Number := ⟨negative, ds, none, none⟩

/-- Digits are an integer if they fit one, unless they are minus zero. -/
theorem integer?_ofDigits (negative : Bool) (ds : List Char) :
    (ofDigits negative ds).integer? =
      if ¬ (negative ∧ signedValue negative ds = 0) ∧
          -9223372036854775808 ≤ signedValue negative ds ∧
          signedValue negative ds < 18446744073709551616 then
        some (signedValue negative ds)
      else none := by
  have bounds : -Int.ofNat (Nat.pow 2 63) = -9223372036854775808 ∧
      Int.ofNat (Nat.pow 2 64) = 18446744073709551616 := by decide
  simp only [integer?, bounds, ofDigits, Option.isNone_none, true_and]
  rfl

/-! ## Significands -/

/-- Digits are taken up to the first one that would lead out of the range. -/
theorem exists_takeSignificand {acc : Nat} (h : acc < significandRange) (ds : List Char) :
    ∃ kept, ds = kept ++ (takeSignificand acc ds).2 ∧
      (takeSignificand acc ds).1 = Nat.ofDigitChars 10 kept acc ∧
      Nat.ofDigitChars 10 kept acc < significandRange ∧
      ∀ d ∈ (takeSignificand acc ds).2.head?,
        significandRange ≤ Nat.ofDigitChars 10 (kept ++ [d]) acc := by
  induction ds generalizing acc with
  | nil => exact ⟨[], rfl, rfl, h, fun d mem => nomatch mem⟩
  | cons d ds ih =>
      simp only [takeSignificand]
      split
      next fits =>
        obtain ⟨kept, parts, number, bound, next⟩ := ih fits
        refine ⟨d :: kept, congrArg (d :: ·) parts, ?_, ?_, ?_⟩
        · rw [number, Nat.ofDigitChars_cons]
        · rwa [Nat.ofDigitChars_cons]
        · intro e mem
          rw [List.cons_append, Nat.ofDigitChars_cons]
          exact next e mem
      next long =>
        refine ⟨[], rfl, rfl, h, fun e mem => ?_⟩
        cases mem
        exact Nat.le_of_not_lt long

/-! ## Scaling up -/

/-- One is a factor that changes nothing. -/
theorem times_powerOfTen_zero {x : Double} (h : x.isFinite) : x.times (powerOfTen 0) = x := by
  obtain ⟨sign, -, one⟩ := Decimal.nearest_whole false (show 1 < 2 ^ 53 by decide)
  have power : powerOfTen 0 = Decimal.nearest ⟨false, 1, 0⟩ := rfl
  rw [Double.times, power, sign, one, Nat.one_mul,
    Double.nearestBits_mul_right _ _ Double.stepsPerOne_pos, Double.nearestBits_steps h,
    Bool.bne_false, Double.ofMagnitudeBits_magnitudeBits]

theorem scale?_of_isZero {x : Double} (h : x.isZero) (exponent : Int) :
    scale? x exponent = some x := if_pos h

theorem scale?_natCast {x : Double} (h : x.isZero = false) (k : Nat) : scale? x k =
    if largestPower < k then none
    else if (x.times (powerOfTen k)).isInfinite then none
    else some (x.times (powerOfTen k)) := by
  rw [scale?, h]
  simp only [Bool.false_eq_true, if_false, Nat.cast_lt, Int.natCast_nonneg, if_true,
    Int.toNat_natCast]

/-- What is scaled by nothing stays as it is. -/
theorem scale?_zero {x : Double} (h : x.isFinite) : scale? x 0 = some x := by
  cases zero : x.isZero with
  | true => exact scale?_of_isZero zero 0
  | false =>
      have finite : x.isInfinite = false := by
        rw [Double.isInfinite, beq_eq_false_iff_ne]
        exact Nat.ne_of_lt (of_decide_eq_true h)
      have small : ¬ largestPower < 0 := by decide
      rw [← Int.natCast_zero, scale?_natCast zero, if_neg small, times_powerOfTen_zero h, finite,
        if_neg Bool.false_ne_true]

section Overflow

variable {x : Double} (ne : x.isZero = false) {k : Nat}

include ne

/-- What is scaled up is rounded once, after the power of ten was rounded to a double. -/
theorem isNearest_of_scale? {y : Double} (h : scale? x k = some y) :
    y.IsNearest (x.size * (powerOfTen k).size) := by
  simp only [scale?_natCast ne, Option.ite_none_left_eq_some, Option.some.injEq] at h
  obtain ⟨-, -, rfl⟩ := h
  exact Double.isNearest_times x (powerOfTen k)

/-- A double is refused where the power is above the largest one, or the product overflows. -/
theorem scale?_eq_none_iff : scale? x k = none ↔
    largestPower < k ∨ Double.overflowSize ≤ x.size * (powerOfTen k).size := by
  rw [scale?_natCast ne, ← (Double.isNearest_times x (powerOfTen k)).isInfinite_iff]
  by_cases large : largestPower < k
  · simp only [large, if_true, true_or]
  · simp only [large, if_false, false_or, ite_eq_left_iff, reduceCtorEq, imp_false, not_not]

end Overflow

/-! ## Doubles -/

/-- The double of digits is that of a front of them, scaled for the others. -/
theorem double?_ofDigits (negative : Bool) (ds : List Char) :
    (ofDigits negative ds).double? =
      scale? (Decimal.nearest ⟨negative, (takeSignificand 0 ds).1, 0⟩)
        (takeSignificand 0 ds).2.length := by
  have small : ¬ largestExponent < Int.natAbs 0 := by decide
  have exponent (n : Nat) : Int.ofNat (n + 0) - Int.ofNat 0 + 0 = n := by simp
  simp only [double?, ofDigits, Option.getD_none, takeSignificand, List.length_nil, exponent,
    if_neg small]

/-- The double of digits that fit 64 bits is the nearest one. -/
theorem double?_ofDigits_of_lt (negative : Bool) {ds : List Char}
    (h : valueOf ds < 18446744073709551616) :
    (ofDigits negative ds).double? = some (Decimal.nearest ⟨negative, valueOf ds, 0⟩) := by
  obtain ⟨kept, parts, number, -, next⟩ :=
    exists_takeSignificand (show 0 < significandRange by decide) ds
  rw [double?_ofDigits, number]
  cases rest : (takeSignificand 0 ds).2 with
  | nil =>
      rw [rest, List.append_nil] at parts
      rw [← parts]
      exact scale?_zero (Decimal.isFinite_nearest_whole negative h)
  | cons d more =>
      rw [rest] at parts next
      -- A digit that is left would lead out of the range, and those behind it further.
      have long : significandRange ≤ valueOf ds := by
        rw [parts, List.append_cons, valueOf, Nat.ofDigitChars_append]
        exact Nat.le_trans (next d rfl) (le_ofDigitChars _ more)
      exact absurd h (Nat.not_lt.mpr long)

/-- Of longer digits as many are kept as fit 64 bits, and the others only scale by ten. -/
theorem exists_double?_ofDigits_eq (negative : Bool) {ds : List Char}
    (h : 18446744073709551616 ≤ valueOf ds) : ∃ kept next rest,
      ds = kept ++ next :: rest ∧ valueOf kept < 18446744073709551616 ∧
      18446744073709551616 ≤ valueOf (kept ++ [next]) ∧
      (ofDigits negative ds).double? =
        scale? (Decimal.nearest ⟨negative, valueOf kept, 0⟩) (rest.length + 1) := by
  obtain ⟨kept, parts, number, bound, next⟩ :=
    exists_takeSignificand (show 0 < significandRange by decide) ds
  cases rest : (takeSignificand 0 ds).2 with
  | nil =>
      rw [rest, List.append_nil] at parts
      rw [parts] at h
      exact absurd bound (Nat.not_lt.mpr h)
  | cons d more =>
      rw [rest] at parts next
      refine ⟨kept, d, more, parts, bound, next d rfl, ?_⟩
      rw [double?_ofDigits, number, rest]
      rfl

/-- This is next to the double that is nearest to the number. -/
example : (ofDigits false "24302287341150794553".toList).double? = some ⟨0x43f51431193e6c40⟩ ∧
    Decimal.nearest ⟨false, 24302287341150794553, 0⟩ = ⟨0x43f51431193e6c3f⟩ := by
  decide +kernel

end Metrology.Json.Number
