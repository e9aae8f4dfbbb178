import Metrology.Proofs.Double.Text

/-!
# Whole numbers as doubles

A whole number of at most 53 bits is a double, and rounding finds it.  Below ten to the
fifteenth it is also written out as a whole number, with the digits of an integer.

For this the shortest decimal of such a double must be the number itself, perhaps with
zeros moved into the exponent.  The candidates are tried from the first digit on, and
those down to the last digit before the point are whole numbers as well.  They are too
small to be cut, so one of them is rounded to the double only if it is the same number.
The number is among them, and so the search ends there (`exists_shortest_whole`).
-/

namespace Metrology

open Text

namespace Double

/-! ## The parts of a double -/

theorem negative_ofMagnitudeBits (negative : Bool) {magnitude : Nat} (h : magnitude < 2 ^ 63) :
    (ofMagnitudeBits negative magnitude).negative = negative := by
  cases negative with
  | false =>
      simp only [Double.negative, ofMagnitudeBits, UInt64.toNat_ofNat', signBit, Nat.pow_eq,
        decide_eq_false_iff_not]
      simp only [Bool.false_eq_true, if_false]
      omega
  | true =>
      simp only [Double.negative, ofMagnitudeBits, UInt64.toNat_ofNat', signBit, Nat.pow_eq,
        decide_eq_true_eq, if_true]
      omega

/-- A significand of 53 bits and a unit can be read off the bits that they make. -/
theorem steps_of_magnitudeBits {x : Double} {unit significand : Nat}
    (bits : x.magnitudeBits = unit * fractionRange + significand)
    (low : 2 ^ 52 ≤ significand) (high : significand < 2 ^ 53) :
    x.steps = significand * 2 ^ unit := by
  have parts : x.significand = significand ∧ x.unit = unit := by
    simp only [Double.significand, Double.unit, bits, fractionRange, Nat.pow_eq]
    split
    · omega
    · omega
  rw [steps_eq, parts.1, parts.2]

theorem steps_of_isZero {x : Double} (h : x.isZero) : x.steps = 0 := by
  have bits : x.magnitudeBits = 0 := eq_of_beq h
  have significand : x.significand = 0 := by
    rw [Double.significand, bits]
    rfl
  rw [steps_eq, significand, Nat.zero_mul]

/-- Sign and steps settle a finite double. -/
theorem eq_of_steps_eq {x y : Double} (hx : x.isFinite) (hy : y.isFinite)
    (sign : x.negative = y.negative) (steps : x.steps = y.steps) : x = y := by
  rw [← ofMagnitudeBits_magnitudeBits x, ← ofMagnitudeBits_magnitudeBits y,
    ← nearestBits_steps hx, ← nearestBits_steps hy, sign, steps]

/-! ## Rounding whole numbers -/

theorem stepsPerOne_eq {k : Nat} (h : 1074 = k) : stepsPerOne = 2 ^ k := by
  cases h
  decide +kernel

theorem log2_mul_stepsPerOne {n : Nat} (pos : 0 < n) :
    (n * stepsPerOne).log2 = n.log2 + 1074 := by
  -- A power with a literal exponent would be written out.
  generalize exponent : 1074 = k
  have ne : n * 2 ^ k ≠ 0 := (Nat.mul_pos pos (Nat.two_pow_pos k)).ne'
  rw [stepsPerOne_eq exponent, Nat.log2_eq_iff ne, Nat.add_right_comm, Nat.pow_add, Nat.pow_add]
  exact ⟨Nat.mul_le_mul_right _ (Nat.log2_self_le pos.ne'),
    Nat.mul_lt_mul_of_pos_right Nat.lt_log2_self (Nat.two_pow_pos _)⟩

/-- A whole number of at most 53 bits, moved up to 53 bits. -/
theorem significand_whole {n : Nat} (pos : 0 < n) (h : n < 2 ^ 53) :
    2 ^ 52 ≤ n * 2 ^ (52 - n.log2) ∧ n * 2 ^ (52 - n.log2) < 2 ^ 53 ∧
      n * 2 ^ (52 - n.log2) * 2 ^ (n.log2 + 1022) = n * stepsPerOne := by
  have log : n.log2 < 53 := (Nat.log2_lt pos.ne').mpr h
  have low : 2 ^ n.log2 * 2 ^ (52 - n.log2) = 2 ^ 52 := by
    rw [← Nat.pow_add, show n.log2 + (52 - n.log2) = 52 by omega]
  have high : 2 ^ (n.log2 + 1) * 2 ^ (52 - n.log2) = 2 ^ 53 := by
    rw [← Nat.pow_add, show n.log2 + 1 + (52 - n.log2) = 53 by omega]
  have exponent : 1074 = 52 - n.log2 + (n.log2 + 1022) := by omega
  refine ⟨?_, ?_, ?_⟩
  · rw [← low]
    exact Nat.mul_le_mul_right _ (Nat.log2_self_le pos.ne')
  · rw [← high]
    exact Nat.mul_lt_mul_of_pos_right Nat.lt_log2_self (Nat.two_pow_pos _)
  · rw [Nat.mul_assoc, ← Nat.pow_add, stepsPerOne_eq exponent]

theorem nearestBits_whole {n : Nat} (pos : 0 < n) (h : n < 2 ^ 53) :
    nearestBits n 1 = (n.log2 + 1022) * fractionRange + n * 2 ^ (52 - n.log2) := by
  obtain ⟨-, small, whole⟩ := significand_whole pos h
  have log : n.log2 < 53 := (Nat.log2_lt pos.ne').mpr h
  have unit : (n * stepsPerOne / 1).log2 - 52 = n.log2 + 1022 := by
    rw [Nat.div_one, log2_mul_stepsPerOne pos]
    omega
  have finite : (n.log2 + 1022) * fractionRange + n * 2 ^ (52 - n.log2) ≤ infinityBits := by
    simp only [fractionRange, infinityBits, Nat.pow_eq] at small ⊢
    omega
  rw [nearestBits_eq]
  simp only [unit]
  rw [← whole, Nat.one_mul, roundDiv_mul_left _ (Nat.two_pow_pos _), Nat.min_eq_left finite]

theorem nearestBits_lt_infinityBits {n : Nat} (pos : 0 < n) (h : n < 2 ^ 64) :
    nearestBits n 1 < infinityBits := by
  have log : n.log2 < 64 := (Nat.log2_lt pos.ne').mpr h
  have unit : (n * stepsPerOne / 1).log2 - 52 = n.log2 + 1022 := by
    rw [Nat.div_one, log2_mul_stepsPerOne pos]
    omega
  have short : n * stepsPerOne / 2 ^ (n.log2 + 1022) < 2 ^ 53 := by
    obtain ⟨k, exponent⟩ : ∃ k, 1074 = k := ⟨_, rfl⟩
    rw [Nat.div_lt_iff_lt_mul (Nat.two_pow_pos _)]
    calc n * stepsPerOne
        < 2 ^ (n.log2 + 1) * stepsPerOne :=
          Nat.mul_lt_mul_of_pos_right Nat.lt_log2_self stepsPerOne_pos
      _ = 2 ^ 53 * 2 ^ (n.log2 + 1022) := by
          rw [stepsPerOne_eq exponent, ← Nat.pow_add, ← Nat.pow_add]
          congr 1
          omega
  have rounded := roundDiv_le (n * stepsPerOne) (2 ^ (n.log2 + 1022))
  rw [nearestBits_eq]
  simp only [unit, Nat.one_mul]
  generalize roundDiv (n * stepsPerOne) (2 ^ (n.log2 + 1022)) = bits at rounded ⊢
  refine Nat.lt_of_le_of_lt (Nat.min_le_left _ _) ?_
  simp only [fractionRange, infinityBits, Nat.pow_eq]
  omega

end Double

namespace Decimal

open Double

/-- The magnitude of a whole number is neither cut to zero nor to infinity. -/
theorem nearest_of_whole (negative : Bool) {n : Nat} (pos : 0 < n) (h : n < 10 ^ 20) :
    nearest ⟨negative, n, 0⟩ = ofMagnitudeBits negative (nearestBits n 1) := by
  have length : (digits n).length ≤ 20 := (length_digits_le_iff (by decide)).mpr h
  have kept : ¬ (n = 0 ∨ magnitude ⟨negative, n, 0⟩ < -330) := by
    simp only [magnitude]
    omega
  have finite : ¬ 310 < magnitude ⟨negative, n, 0⟩ := by
    simp only [magnitude]
    omega
  have numerator : numerator ⟨negative, n, 0⟩ = n := Nat.mul_one n
  have denominator : denominator ⟨negative, n, 0⟩ = 1 := rfl
  rw [nearest, if_neg kept, if_neg finite, numerator, denominator]

theorem nearest_zero (negative : Bool) :
    nearest ⟨negative, 0, 0⟩ = ofMagnitudeBits negative 0 := if_pos (.inl rfl)

/-- A whole number of at most 53 bits is rounded to itself. -/
theorem nearest_whole (negative : Bool) {n : Nat} (h : n < 2 ^ 53) :
    (nearest ⟨negative, n, 0⟩).negative = negative ∧ (nearest ⟨negative, n, 0⟩).isFinite ∧
      (nearest ⟨negative, n, 0⟩).steps = n * stepsPerOne := by
  rcases Nat.eq_zero_or_pos n with rfl | pos
  · have bits : (ofMagnitudeBits negative 0).magnitudeBits = 0 :=
      magnitudeBits_ofMagnitudeBits negative (by decide)
    rw [nearest_zero]
    refine ⟨negative_ofMagnitudeBits negative (by decide), ?_, ?_⟩
    · rw [isFinite, bits]
      rfl
    · rw [steps_of_isZero (beq_iff_eq.mpr bits), Nat.zero_mul]
  · rw [nearest_of_whole negative pos (Nat.lt_trans h (by decide))]
    have log : n.log2 < 53 := (Nat.log2_lt pos.ne').mpr h
    have bits := nearestBits_whole pos h
    obtain ⟨low, high, whole⟩ := significand_whole pos h
    have bound : nearestBits n 1 < infinityBits := by
      simp only [bits, fractionRange, infinityBits, Nat.pow_eq] at high ⊢
      omega
    have magnitude := magnitudeBits_ofMagnitudeBits negative
      (Nat.lt_trans bound (show infinityBits < 2 ^ 63 by decide))
    refine ⟨negative_ofMagnitudeBits negative (Nat.lt_trans bound (by decide)), ?_, ?_⟩
    · rw [isFinite, magnitude]
      exact decide_eq_true bound
    · rw [steps_of_magnitudeBits (magnitude.trans bits) low high, whole]

/-- A whole number of at most 64 bits is rounded to a finite double. -/
theorem isFinite_nearest_whole (negative : Bool) {n : Nat} (h : n < 2 ^ 64) :
    (nearest ⟨negative, n, 0⟩).isFinite := by
  rcases Nat.eq_zero_or_pos n with rfl | pos
  · exact (nearest_whole negative (by decide)).2.1
  · have bound := nearestBits_lt_infinityBits pos h
    have magnitude := magnitudeBits_ofMagnitudeBits negative
      (Nat.lt_trans bound (show infinityBits < 2 ^ 63 by decide))
    rw [nearest_of_whole negative pos (Nat.lt_trans h (by decide)), isFinite, magnitude]
    exact decide_eq_true bound

/-- So is one with zeros in its exponent. -/
theorem steps_nearest_whole (negative : Bool) {c e : Nat} (h : c * 10 ^ e < 2 ^ 53) :
    (nearest ⟨negative, c, e⟩).steps = c * 10 ^ e * stepsPerOne := by
  rcases Nat.eq_zero_or_pos c with rfl | pos
  · have same : nearest ⟨negative, 0, e⟩ = nearest ⟨negative, 0, 0⟩ :=
      (if_pos (.inl rfl)).trans (if_pos (.inl rfl)).symm
    rw [Nat.zero_mul] at h ⊢
    rw [same, (nearest_whole negative h).2.2]
  · have same := nearest_mul_pow negative pos e 0
    rw [Int.zero_add] at same
    rw [← same, (nearest_whole negative h).2.2]

theorem nearest_eq_of_steps {x : Double} (finite : x.isFinite) {n : Nat} (h : n < 2 ^ 53)
    (steps : x.steps = n * stepsPerOne) : nearest ⟨x.negative, n, 0⟩ = x := by
  obtain ⟨sign, number, whole⟩ := nearest_whole x.negative h
  exact eq_of_steps_eq number finite sign (whole.trans steps.symm)

/-! ## Writing whole numbers -/

/-- The zeros that are left out at the end come back behind the digits. -/
theorem write_whole (negative : Bool) {c e : Nat} (pos : 0 < c) (h : c * 10 ^ e < 10 ^ 15) :
    write ⟨negative, c, e⟩ = signed negative (digits (c * 10 ^ e)) := by
  have digits := digits_mul_pow pos e
  have most : (Text.digits (c * 10 ^ e)).length ≤ 15 := (length_digits_le_iff (by decide)).mpr h
  have some : 0 < (Text.digits c).length := List.length_pos_iff.mpr Nat.toDigits_ne_nil
  obtain ⟨k, zeros⟩ := exists_append_dropTrailing '0' (Text.digits c)
  have length := congrArg List.length zeros
  rw [List.length_append, List.length_replicate] at length
  rw [digits, List.length_append, List.length_replicate] at most
  have range : firstPlainExponent ≤ (e : Int) + (Text.digits c).length - 1 ∧
      (e : Int) + (Text.digits c).length - 1 < firstScientificExponent := by
    simp only [firstPlainExponent, firstScientificExponent]
    omega
  have after : ¬ (e : Int) + (Text.digits c).length ≤ 0 := by omega
  have all : ((dropTrailing '0' (Text.digits c)).length : Int) ≤ e + (Text.digits c).length := by
    omega
  have count : ((e : Int) + (Text.digits c).length).toNat -
      (dropTrailing '0' (Text.digits c)).length = k + e := by omega
  have whole : dropTrailing '0' (Text.digits c) ++ List.replicate (k + e) '0' =
      Text.digits (c * 10 ^ e) := by
    rw [digits, ← List.replicate_append_replicate, ← List.append_assoc, ← zeros]
  simp only [write, if_pos range, Int.sub_add_cancel, plain, if_neg after, if_pos all, count,
    whole, signed]

end Decimal

namespace Double

open Decimal

theorem leadingExponent_whole {x : Double} {n : Nat} (pos : 0 < n)
    (steps : x.steps = n * stepsPerOne) :
    x.leadingExponent = ((digits n).length : Int) - 1 := by
  have cancel (k : Nat) : n * stepsPerOne * Nat.pow 10 k / stepsPerOne = n * 10 ^ k := by
    rw [Nat.mul_right_comm, Nat.mul_div_cancel _ stepsPerOne_pos, Nat.pow_eq]
  rw [leadingExponent, steps, cancel, digits_mul_pow pos, List.length_append,
    List.length_replicate, Int.ofNat_eq_natCast]
  omega

theorem mem_neighbours_whole {x : Double} {n : Nat} (steps : x.steps = n * stepsPerOne)
    (e : Nat) (d : Decimal) : d ∈ x.neighbours e ↔
      d = ⟨x.negative, n / 10 ^ e, e⟩ ∨ d = ⟨x.negative, n / 10 ^ e + 1, e⟩ := by
  have num : x.steps * Nat.pow 10 (-(e : Int)).toNat = stepsPerOne * n := by
    rw [show (-(e : Int)).toNat = 0 by omega, steps, Nat.mul_comm stepsPerOne]
    exact Nat.mul_one _
  have den : stepsPerOne * Nat.pow 10 (e : Int).toNat = stepsPerOne * 10 ^ e := rfl
  simp only [neighbours, num, den, Nat.mul_div_mul_left _ _ stepsPerOne_pos]
  split
  next => rw [List.mem_cons, List.mem_singleton]
  next => rw [List.mem_cons, List.mem_singleton, or_comm]

/-- A candidate that is whole is rounded to the number only if it is the number. -/
theorem whole_of_mem_neighbours {x : Double} {n : Nat} (h : n < 10 ^ 15)
    (steps : x.steps = n * stepsPerOne) {e : Nat} (le : 10 ^ e ≤ n) {d : Decimal}
    (mem : d ∈ x.neighbours e) (back : d.nearest = x) :
    ∃ c, d = ⟨x.negative, c, e⟩ ∧ c * 10 ^ e = n := by
  obtain ⟨c, shape, bound⟩ : ∃ c, d = ⟨x.negative, c, e⟩ ∧ c ≤ n / 10 ^ e + 1 := by
    rcases (mem_neighbours_whole steps e d).mp mem with low | high
    · exact ⟨_, low, Nat.le_succ _⟩
    · exact ⟨_, high, Nat.le_refl _⟩
  refine ⟨c, shape, ?_⟩
  have small : c * 10 ^ e < 2 ^ 53 := by
    have twice : c * 10 ^ e ≤ n + n := by
      calc c * 10 ^ e ≤ (n / 10 ^ e + 1) * 10 ^ e := Nat.mul_le_mul_right _ bound
        _ = n / 10 ^ e * 10 ^ e + 10 ^ e := by rw [Nat.add_mul, Nat.one_mul]
        _ ≤ n + n := Nat.add_le_add (Nat.div_mul_le_self n _) le
    omega
  have same := steps_nearest_whole x.negative small
  rw [← shape, back, steps] at same
  exact (Nat.mul_right_cancel stepsPerOne_pos same).symm

/-- The candidates with digits down to the last one before the point, where the first digit
stands for the given power of ten. -/
def wholeCandidates (x : Double) (first : Nat) : List Decimal :=
  (List.range (first + 1)).flatMap fun i => x.neighbours (first - Int.ofNat i)

theorem mem_wholeCandidates_iff {x : Double} {first : Nat} {d : Decimal} :
    d ∈ x.wholeCandidates first ↔ ∃ e ≤ first, d ∈ x.neighbours (e : Nat) := by
  have power {i : Nat} (le : i ≤ first) : (first : Int) - Int.ofNat i = (first - i : Nat) :=
    (Int.natCast_sub le).symm
  simp only [wholeCandidates, List.mem_flatMap, List.mem_range, Nat.lt_succ_iff]
  constructor
  · rintro ⟨i, le, mem⟩
    rw [power le] at mem
    exact ⟨first - i, Nat.sub_le _ _, mem⟩
  · rintro ⟨e, le, mem⟩
    refine ⟨first - e, Nat.sub_le _ _, ?_⟩
    rwa [power (Nat.sub_le _ _), Nat.sub_sub_self le]

theorem exists_candidates_append {x : Double} {first : Nat} (h : x.leadingExponent = first)
    (le : first < 17) : ∃ rest, x.candidates = x.wholeCandidates first ++ rest := by
  have range : List.range 17 =
      List.range (first + 1) ++ (List.range (16 - first)).map (first + 1 + ·) := by
    rw [← List.range_add, show first + 1 + (16 - first) = 17 by omega]
  rw [candidates, h, range, List.flatMap_append]
  exact ⟨_, rfl⟩

/-- The shortest decimal of a whole number is the number. -/
theorem exists_shortest_whole {x : Double} (finite : x.isFinite) {n : Nat} (pos : 0 < n)
    (h : n < 10 ^ 15) (steps : x.steps = n * stepsPerOne) :
    ∃ c e : Nat, x.shortest = ⟨x.negative, c, e⟩ ∧ c * 10 ^ e = n := by
  obtain ⟨first, length⟩ : ∃ first, (digits n).length = first + 1 :=
    ⟨_, (Nat.succ_pred_eq_of_pos (List.length_pos_iff.mpr Nat.toDigits_ne_nil)).symm⟩
  have shorter := (length_digits_le_iff (n := n) (show 0 < 15 by decide)).mpr h
  have leading : x.leadingExponent = first := by
    rw [leadingExponent_whole pos steps]
    omega
  obtain ⟨rest, parts⟩ := exists_candidates_append leading (by omega)
  have number : (⟨x.negative, n, 0⟩ : Decimal) ∈ x.wholeCandidates first := by
    refine mem_wholeCandidates_iff.mpr ⟨0, Nat.zero_le _, ?_⟩
    refine (mem_neighbours_whole steps 0 _).mpr (.inl ?_)
    rw [Nat.pow_zero, Nat.div_one]
    rfl
  have hit : ((x.wholeCandidates first).find? fun d => d.nearest = x).isSome :=
    List.find?_isSome.mpr
      ⟨_, number, decide_eq_true (nearest_eq_of_steps finite (by omega) steps)⟩
  obtain ⟨d, found⟩ := Option.isSome_iff_exists.mp hit
  have shortest : x.shortest = d := by
    rw [Double.shortest, parts, List.find?_append, found]
    rfl
  obtain ⟨e, le, near⟩ := mem_wholeCandidates_iff.mp (List.mem_of_find?_eq_some found)
  have power : 10 ^ e ≤ n := by
    rcases Nat.eq_zero_or_pos e with rfl | digit
    · exact pos
    · exact (lt_length_digits_iff digit).mp (by omega)
  have back := List.find?_some found
  obtain ⟨c, shape, value⟩ := whole_of_mem_neighbours h steps power near (of_decide_eq_true back)
  exact ⟨c, e, shortest.trans shape, value⟩

/-- Whole numbers below ten to the fifteenth are written out. -/
theorem write_whole {x : Double} (finite : x.isFinite) {n : Nat} (pos : 0 < n)
    (h : n < 10 ^ 15) (steps : x.steps = n * stepsPerOne) :
    x.write = signed x.negative (digits n) := by
  obtain ⟨c, e, shortest, value⟩ := exists_shortest_whole finite pos h steps
  have coefficient : 0 < c := by
    refine Nat.pos_iff_ne_zero.mpr fun zero => pos.ne' ?_
    rw [← value, zero, Nat.zero_mul]
  have ne : x.isZero = false := by
    refine Bool.eq_false_iff.mpr fun zero => ?_
    rw [steps_of_isZero zero] at steps
    exact (Nat.mul_pos pos stepsPerOne_pos).ne steps
  rw [write_of_isFinite finite ne, shortest, Decimal.write_whole x.negative coefficient (value ▸ h),
    value]

end Double

end Metrology
