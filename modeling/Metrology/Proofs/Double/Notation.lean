import Mathlib.Data.List.DropRight
import Metrology.Proofs.Double.Rounding
import Metrology.Proofs.Text.Integer

/-!
# Notation

A number is written out or with an exponent, and which of the two is decided by the
first digit of its shortest decimal.  That the size of the number decides it as well is no
matter of course, for the decimal may lie on the other side of a power of ten than the
number does.  But rounding keeps the order, so at most the double nearest to the power
itself could change sides, and the shortest decimal of that double is the power
(`le_size_shortest_iff`).

The two notations are told apart by their shape.  Neither has digits that say nothing,
such as a zero at the end of a fraction.

The first digit can be asked for by way of a text, too.  Every finite double has a text with
an exponent, and the exponent is read off it.  This needs an answer for a text without one
and for an exponent that is out of range, but it never comes to that
(`chooseByExponent_eq_write`).
-/

namespace Metrology

open Text

namespace Text

/-! ## Zeros at either end -/

theorem getLast?_dropTrailing_ne (c : Char) (cs : List Char) :
    (dropTrailing c cs).getLast? ≠ some c := by
  have last := List.head?_dropWhile_not (· = c) cs.reverse
  rw [dropTrailing, List.getLast?_reverse]
  intro found
  rw [found] at last
  exact absurd rfl (of_decide_eq_false last)

/-- The digits of a number other than zero start with none. -/
theorem head?_digits_ne {n : Nat} (pos : 0 < n) : (digits n).head? ≠ some '0' := by
  intro zero
  obtain ⟨rest, text⟩ := List.head?_eq_some_iff.mp zero
  have all := allDigits_digits n
  rw [text, allDigits_cons] at all
  have value : valueOf rest = n := by
    rw [← valueOf_digits n, text]
    exact (valueOf_zeros_append 1 rest).symm
  -- A number that needs one digit less is too small.
  have bound := valueOf_lt all.2
  have length := congrArg List.length text
  rw [value] at bound
  cases rest with
  | nil => exact absurd bound (Nat.not_lt.mpr pos)
  | cons d rest =>
      have short := (length_digits_le_iff (Nat.succ_pos _)).mpr bound
      rw [length] at short
      exact absurd short (Nat.not_succ_le_self _)

/-! ## Splitting -/

/-- The parts of a text in front of the first mark and behind it, if there is one. -/
def splitOnce (mark : Char) (cs : List Char) : Option (List Char × List Char) :=
  match cs.dropWhile (· ≠ mark) with
  | [] => none
  | _ :: rest => some (cs.takeWhile (· ≠ mark), rest)

/-- A text is split at the first mark. -/
theorem splitOnce_append {mark : Char} {cs : List Char} (h : mark ∉ cs) (r : List Char) :
    splitOnce mark (cs ++ mark :: r) = some (cs, r) := by
  have other : ∀ c ∈ cs, decide (c ≠ mark) = true := by
    intro c mem
    refine decide_eq_true ?_
    rintro rfl
    exact h mem
  rw [splitOnce, List.dropWhile_append_of_pos other, List.takeWhile_append_of_pos other]
  simp

end Text

namespace Decimal

/-! ## Shapes -/

/-- The digits of a whole number without superfluous zeros in front. -/
structure IsWhole (ds : List Char) : Prop where
  allDigits : AllDigits ds
  ne_nil : ds ≠ []
  lone_zero : ds.head? = some '0' → ds = ['0']

/-- Nothing, or a point and digits of which the last one is not zero. -/
def IsFraction (cs : List Char) : Prop :=
  cs = [] ∨ ∃ ds, cs = '.' :: ds ∧ AllDigits ds ∧ ds ≠ [] ∧ ds.getLast? ≠ some '0'

/-- Two digits or more, where a zero in front stands only before a single digit. -/
structure IsExponent (ds : List Char) : Prop where
  allDigits : AllDigits ds
  two_le : 2 ≤ ds.length
  single : ds.head? = some '0' → ds.length = 2

/-- A number that is written out. -/
def IsPlain (cs : List Char) : Prop := ∃ negative whole fraction,
  cs = signed negative (whole ++ fraction) ∧ IsWhole whole ∧ IsFraction fraction

/-- A number with one digit before the point and with an exponent. -/
def IsScientific (cs : List Char) : Prop :=
  ∃ (negative : Bool) (first : Char) (fraction : List Char) (below : Bool) (exponent : List Char),
  cs = signed negative
    (first :: (fraction ++ 'E' :: (if below then '-' else '+') :: exponent)) ∧
  first.isDigit ∧ first ≠ '0' ∧ IsFraction fraction ∧ IsExponent exponent

/-- Digits with no zero at either end. -/
structure IsSignificant (ds : List Char) : Prop where
  allDigits : AllDigits ds
  ne_nil : ds ≠ []
  head : ds.head? ≠ some '0'
  last : ds.getLast? ≠ some '0'

/-- The digits of a number without the zeros at the end are significant. -/
theorem isSignificant_dropTrailing {c : Nat} (h : c ≠ 0) :
    IsSignificant (dropTrailing '0' (digits c)) := by
  obtain ⟨n, pos, -⟩ := exists_significant h
  obtain ⟨m, zeros⟩ := exists_append_dropTrailing '0' (digits c)
  have ne := ne_nil_of_valueOf_pos pos
  have head := head?_digits_ne (Nat.pos_of_ne_zero h)
  refine ⟨allDigits_dropTrailing '0' (allDigits_digits c), ne, ?_, getLast?_dropTrailing_ne '0' _⟩
  rwa [zeros, List.head?_append_of_ne_nil _ ne] at head

theorem isFraction_point {ds : List Char} (digits : AllDigits ds) (ne : ds ≠ [])
    (last : ds.getLast? ≠ some '0') : IsFraction ('.' :: ds) := .inr ⟨ds, rfl, digits, ne, last⟩

theorem isWhole_of_head {ds : List Char} (digits : AllDigits ds) (ne : ds ≠ [])
    (head : ds.head? ≠ some '0') : IsWhole ds := ⟨digits, ne, fun zero => absurd zero head⟩

/-! ## Writing -/

/-- Writing a number out gives the plain shape, wherever the point falls. -/
theorem isPlain_plain (negative : Bool) {ds : List Char} (h : IsSignificant ds) (before : Int) :
    IsPlain (signed negative (plain ds before)) := by
  rw [plain]
  split
  next =>
    have last : (List.replicate (-before).toNat '0' ++ ds).getLast? ≠ some '0' := by
      rw [List.getLast?_append_of_ne_nil _ h.ne_nil]
      exact h.last
    refine ⟨negative, ['0'], _, rfl, ⟨allDigits_zeros 1, List.cons_ne_nil _ _, fun _ => rfl⟩, ?_⟩
    refine isFraction_point (allDigits_append.mpr ⟨allDigits_zeros _, h.allDigits⟩) ?_ last
    intro nil
    exact h.ne_nil (List.append_eq_nil_iff.mp nil).2
  next some =>
    split
    next =>
      refine ⟨negative, _, [], congrArg _ (List.append_nil _).symm, ?_, .inl rfl⟩
      refine isWhole_of_head (allDigits_append.mpr ⟨h.allDigits, allDigits_zeros _⟩) ?_ ?_
      · intro nil
        exact h.ne_nil (List.append_eq_nil_iff.mp nil).1
      · rw [List.head?_append_of_ne_nil _ h.ne_nil]
        exact h.head
    next more =>
      have least : before.toNat ≠ 0 := by omega
      have parts : AllDigits (ds.take before.toNat) ∧ AllDigits (ds.drop before.toNat) := by
        rw [← allDigits_append, List.take_append_drop]
        exact h.allDigits
      refine ⟨negative, _, _, rfl, isWhole_of_head parts.1 ?_ ?_, isFraction_point parts.2 ?_ ?_⟩
      · exact fun nil => (List.take_eq_nil_iff.mp nil).elim least h.ne_nil
      · rw [List.head?_take, if_neg least]
        exact h.head
      · intro nil
        have short := List.drop_eq_nil_iff.mp nil
        omega
      · rw [List.getLast?_drop, if_neg (by omega)]
        exact h.last

/-- An exponent of one digit gets a zero in front, and a longer one gets none. -/
theorem isExponent_paddedDigits (n : Nat) : IsExponent (paddedDigits 2 n) := by
  refine ⟨allDigits_paddedDigits 2 n, le_length_paddedDigits 2 n, fun zero => ?_⟩
  rcases Nat.lt_or_ge 2 (digits n).length with long | short
  · have pos : 0 < n := Nat.pos_of_ne_zero fun none => by
      rw [none] at long
      exact absurd long (by decide)
    have none : 2 - (digits n).length = 0 := Nat.sub_eq_zero_of_le long.le
    rw [paddedDigits, List.leftpad, none] at zero
    exact absurd zero (head?_digits_ne pos)
  · rw [paddedDigits, List.length_leftpad, Nat.max_eq_left short]

/-- Writing it with an exponent gives the scientific shape. -/
theorem isScientific_scientific (negative : Bool) {ds : List Char} (h : IsSignificant ds)
    (exponent : Int) : IsScientific (signed negative (scientific ds exponent)) := by
  cases ds with
  | nil => exact absurd rfl h.ne_nil
  | cons first rest =>
      obtain ⟨digit, digits⟩ := allDigits_cons.mp h.allDigits
      have nonzero : first ≠ '0' := fun zero => h.head (congrArg some zero)
      have padded := isExponent_paddedDigits exponent.natAbs
      cases rest with
      | nil =>
          refine ⟨negative, first, [], exponent < 0, _, ?_, digit, nonzero, .inl rfl, padded⟩
          simp [scientific]
      | cons second rest =>
          have last : (second :: rest).getLast? ≠ some '0' := by
            rw [← List.getLast?_cons_cons (a := first)]
            exact h.last
          refine ⟨negative, first, '.' :: second :: rest, exponent < 0, _, ?_, digit, nonzero,
            isFraction_point digits (List.cons_ne_nil _ _) last, padded⟩
          simp [scientific]

/-- The text of a decimal without an exponent. -/
def positional (d : Decimal) : List Char :=
  signed d.negative (plain (dropTrailing '0' (digits d.coefficient)) d.magnitude)

theorem magnitude_sub_one (d : Decimal) :
    d.exponent + (digits d.coefficient).length - 1 = d.magnitude - 1 := by
  rw [magnitude, Int.add_comm]

/-- Within the plain range the positional form is written. -/
theorem write_eq_positional {d : Decimal}
    (range : firstPlainExponent ≤ d.magnitude - 1 ∧ d.magnitude - 1 < firstScientificExponent) :
    d.write = d.positional := by
  simp only [write, magnitude_sub_one, if_pos range, Int.sub_add_cancel]
  rfl

/-- Outside of it the scientific form is written. -/
theorem write_eq_scientific {d : Decimal}
    (range : ¬ (firstPlainExponent ≤ d.magnitude - 1 ∧ d.magnitude - 1 < firstScientificExponent)) :
    d.write = signed d.negative
      (scientific (dropTrailing '0' (digits d.coefficient)) (d.magnitude - 1)) := by
  simp only [write, magnitude_sub_one, if_neg range]
  rfl

theorem isPlain_write {d : Decimal} (h : d.coefficient ≠ 0)
    (range : firstPlainExponent ≤ d.magnitude - 1 ∧ d.magnitude - 1 < firstScientificExponent) :
    IsPlain d.write := by
  rw [write_eq_positional range]
  exact isPlain_plain d.negative (isSignificant_dropTrailing h) d.magnitude

theorem isScientific_write {d : Decimal} (h : d.coefficient ≠ 0)
    (range : ¬ (firstPlainExponent ≤ d.magnitude - 1 ∧ d.magnitude - 1 < firstScientificExponent)) :
    IsScientific d.write := by
  rw [write_eq_scientific range]
  exact isScientific_scientific d.negative (isSignificant_dropTrailing h) (d.magnitude - 1)

/-! ## The mark of an exponent -/

theorem mark_not_mem_signed (negative : Bool) {cs : List Char} (h : DigitsAnd ['.'] cs) :
    'E' ∉ signed negative cs := by
  have unsigned : 'E' ∉ cs := h.not_mem rfl (by decide)
  cases negative with
  | false => exact unsigned
  | true => exact List.not_mem_cons_of_ne_of_not_mem (by decide) unsigned

/-- A plain text has no mark for an exponent. -/
theorem IsPlain.not_mem {cs : List Char} (h : IsPlain cs) : 'E' ∉ cs := by
  obtain ⟨negative, whole, fraction, rfl, ⟨digits, -, -⟩, shape⟩ := h
  refine mark_not_mem_signed negative (digitsAnd_append.mpr ⟨digits.digitsAnd _, ?_⟩)
  rcases shape with rfl | ⟨ds, rfl, digits, -⟩
  · exact digitsAnd_nil _
  · exact digitsAnd_cons.mpr ⟨.inr (by decide), digits.digitsAnd _⟩

/-- A scientific text has one. -/
theorem IsScientific.mem {cs : List Char} (h : IsScientific cs) : 'E' ∈ cs := by
  obtain ⟨negative, first, fraction, below, exponent, rfl, -⟩ := h
  cases negative <;> simp [signed]

/-! ## By way of the exponent -/

/-- Digits with a point behind the first one. -/
def withPoint (ds : List Char) : List Char :=
  ds.take 1 ++ (if ds.length ≤ 1 then [] else ['.']) ++ ds.drop 1

/-- What stands before the exponent of a decimal. -/
def mantissa (d : Decimal) : List Char :=
  signed d.negative (withPoint (dropTrailing '0' (digits d.coefficient)))

/-- The text of a decimal with an exponent that has no plus and no zeros in front. -/
def exponential (d : Decimal) : List Char :=
  d.mantissa ++ 'E' :: writeInteger (d.magnitude - 1)

/-- One of two texts of a number, chosen by the exponent that is read from the first.  The second
one is chosen also if no exponent is found, or if it is none that can be read. -/
def chooseByExponent (exponential positional : List Char) : List Char :=
  match splitOnce 'E' exponential with
  | none => positional
  | some (mantissa, exponent) =>
    let power := (readInteger 2147483647 exponent).toOption.getD 0
    if -4 ≤ power ∧ power < 15 then positional
    else mantissa ++ 'E' :: (if power < 0 then '-' else '+') :: paddedDigits 2 power.natAbs

/-- There is no such mark within the mantissa. -/
theorem mark_not_mem_mantissa (d : Decimal) : 'E' ∉ d.mantissa := by
  have digits := allDigits_dropTrailing '0' (allDigits_digits d.coefficient)
  refine mark_not_mem_signed d.negative (digitsAnd_append.mpr ⟨digitsAnd_append.mpr ⟨?_, ?_⟩, ?_⟩)
  · exact fun c mem => .inl (digits c (List.mem_of_mem_take mem))
  · split
    · exact digitsAnd_nil _
    · exact digitsAnd_cons.mpr ⟨.inr (by decide), digitsAnd_nil _⟩
  · exact fun c mem => .inl (digits c (List.mem_of_mem_drop mem))

theorem signed_append (negative : Bool) (cs ds : List Char) :
    signed negative (cs ++ ds) = signed negative cs ++ ds := by
  cases negative with
  | false => rfl
  | true => rfl

/-- The exponent is found in the text, and so a decimal is written by it. -/
theorem chooseByExponent_eq_write {d : Decimal} (least : -2147483647 ≤ d.magnitude)
    (most : d.magnitude ≤ 2147483647) : chooseByExponent d.exponential d.positional = d.write := by
  have read : readInteger 2147483647 (writeInteger (d.magnitude - 1)) = .ok (d.magnitude - 1) :=
    readInteger_writeInteger (by omega) (by omega)
  rw [exponential, chooseByExponent, splitOnce_append d.mark_not_mem_mantissa]
  simp only [read, Except.toOption, Option.getD_some]
  split
  next range => exact (write_eq_positional range).symm
  next range =>
    rw [write_eq_scientific range, mantissa, ← signed_append]
    rfl

/-! ## Powers of ten -/

theorem size_one (negative : Bool) (e : Int) : size ⟨negative, 1, e⟩ = 10 ^ e := by
  rw [size, Nat.cast_one, one_mul]

/-- A power of ten is not above a decimal exactly if it is not above its first digit. -/
theorem pow_le_size_iff {d : Decimal} (h : d.coefficient ≠ 0) (e : Int) :
    10 ^ e ≤ d.size ↔ e ≤ d.magnitude - 1 := by
  constructor
  · intro le
    by_contra above
    have power : (10 : ℚ) ^ d.magnitude ≤ 10 ^ e :=
      zpow_le_zpow_right₀ (by norm_num) (by omega)
    exact absurd (d.size_lt.trans_le power) (not_lt.mpr le)
  · intro le
    exact (zpow_le_zpow_right₀ (by norm_num) le).trans (le_size h)

end Decimal

namespace Double

open Decimal

/-! ## The size decides -/

/-- The double 1E-4, the smallest one other than zero that is written out. -/
def firstPlain : Double := nearest ⟨false, 1, -4⟩

/-- The double 1E15, the smallest one above that is no longer written out. -/
def firstScientific : Double := nearest ⟨false, 1, 15⟩

/-- A power of ten is not above a double exactly if it is not above the shortest decimal of the
double, so long as that of the double nearest to the power is the power itself. -/
theorem le_size_shortest_iff {e : Int}
    (own : ∀ negative, (ofMagnitudeBits negative (nearest ⟨false, 1, e⟩).magnitudeBits).shortest =
      ⟨negative, 1, e⟩)
    {x : Double} (finite : x.isFinite) (ne : x.isZero = false) :
    10 ^ e ≤ x.shortest.size ↔ (nearest ⟨false, 1, e⟩).size ≤ x.size := by
  have near := isNearest_nearest x.shortest
  rw [nearest_shortest finite ne] at near
  have power := isNearest_nearest ⟨false, 1, e⟩
  rw [size_one] at power
  constructor
  · exact near.mono power
  · intro le
    by_contra less
    have same := le_antisymm le (power.mono near (not_le.mp less).le)
    have shortest := own x.negative
    rw [size_eq_size_iff.mp same, ofMagnitudeBits_magnitudeBits] at shortest
    rw [shortest, size_one] at less
    exact less le_rfl

/-- The shortest decimal of the least double that is written out is a power of ten. -/
theorem shortest_firstPlain (negative : Bool) :
    (ofMagnitudeBits negative firstPlain.magnitudeBits).shortest =
      ⟨negative, 1, firstPlainExponent⟩ := by
  cases negative <;> decide +kernel

/-- So is that of the least one above that is not. -/
theorem shortest_firstScientific (negative : Bool) :
    (ofMagnitudeBits negative firstScientific.magnitudeBits).shortest =
      ⟨negative, 1, firstScientificExponent⟩ := by
  cases negative <;> decide +kernel

/-- The first digit of the shortest decimal is in the range exactly if the double is. -/
theorem plain_range_iff {x : Double} (finite : x.isFinite) (ne : x.isZero = false) :
    firstPlainExponent ≤ x.shortest.magnitude - 1 ∧
        x.shortest.magnitude - 1 < firstScientificExponent ↔
      firstPlain.size ≤ x.size ∧ x.size < firstScientific.size := by
  have coefficient := coefficient_shortest_ne_zero finite ne
  have lower := le_size_shortest_iff shortest_firstPlain finite ne
  have upper := le_size_shortest_iff shortest_firstScientific finite ne
  rw [pow_le_size_iff coefficient] at lower upper
  exact and_congr lower (Int.not_le.symm.trans ((not_congr upper).trans not_le))

/-- Zero is plain, with a minus as without. -/
theorem isPlain_zero (negative : Bool) : IsPlain (if negative then ['-', '0'] else ['0']) := by
  have whole : IsWhole ['0'] := ⟨allDigits_zeros 1, List.cons_ne_nil _ _, fun _ => rfl⟩
  refine ⟨negative, ['0'], [], ?_, whole, .inl rfl⟩
  cases negative with
  | false => rfl
  | true => rfl

theorem write_of_isZero {x : Double} (finite : x.isFinite) (h : x.isZero) :
    x.write = if x.negative then ['-', '0'] else ['0'] := by
  obtain ⟨number, bounded⟩ := isFinite_iff.mp finite
  rw [write, number, bounded, if_neg Bool.false_ne_true, if_neg Bool.false_ne_true, if_pos h]

theorem isPlain_write {x : Double} (finite : x.isFinite)
    (h : x.isZero ∨ firstPlain.size ≤ x.size ∧ x.size < firstScientific.size) :
    IsPlain x.write := by
  cases zero : x.isZero with
  | true =>
      rw [write_of_isZero finite zero]
      exact isPlain_zero x.negative
  | false =>
      have range := h.resolve_left (Bool.eq_false_iff.mp zero)
      rw [write_of_isFinite finite zero]
      exact Decimal.isPlain_write (coefficient_shortest_ne_zero finite zero)
        ((plain_range_iff finite zero).mpr range)

theorem isScientific_write {x : Double} (finite : x.isFinite)
    (h : ¬ (x.isZero ∨ firstPlain.size ≤ x.size ∧ x.size < firstScientific.size)) :
    IsScientific x.write := by
  obtain ⟨ne, range⟩ := not_or.mp h
  have zero := Bool.eq_false_iff.mpr ne
  rw [write_of_isFinite finite zero]
  exact Decimal.isScientific_write (coefficient_shortest_ne_zero finite zero)
    fun plain => range ((plain_range_iff finite zero).mp plain)

/-- The shortest decimal is neither so small that it is cut to zero, nor so large that it is cut to
infinity. -/
theorem magnitude_shortest_bounds {x : Double} (finite : x.isFinite) (ne : x.isZero = false) :
    -330 ≤ x.shortest.magnitude ∧ x.shortest.magnitude ≤ 310 := by
  have back := nearest_shortest finite ne
  rw [nearest] at back
  split at back
  next =>
    rw [← back, isZero, magnitudeBits_ofMagnitudeBits _ (by decide)] at ne
    cases ne
  next small =>
    split at back
    next =>
      rw [← back, isFinite, magnitudeBits_infinity] at finite
      cases finite
    next large => omega

/-- The text of a double with an exponent that has no plus and no zeros in front. -/
def exponential (x : Double) : List Char :=
  if x.isZero then signed x.negative "0E0".toList else x.shortest.exponential

/-- The text of a double without an exponent. -/
def positional (x : Double) : List Char :=
  if x.isZero then signed x.negative "0".toList else x.shortest.positional

theorem chooseByExponent_eq_write {x : Double} (finite : x.isFinite) :
    chooseByExponent x.exponential x.positional = x.write := by
  cases zero : x.isZero with
  | true =>
      rw [exponential, positional, if_pos zero, if_pos zero, write_of_isZero finite zero]
      cases x.negative with
      | false => decide
      | true => decide
  | false =>
      have kept := Bool.eq_false_iff.mp zero
      obtain ⟨least, most⟩ := magnitude_shortest_bounds finite zero
      rw [exponential, positional, if_neg kept, if_neg kept, write_of_isFinite finite zero]
      exact Decimal.chooseByExponent_eq_write (by omega) (by omega)

/-- A finite double is written out if it is zero or lies from 1E-4 on below 1E15, and otherwise
it has an exponent. -/
theorem plain_or_scientific_write {x : Double} (finite : x.isFinite) :
    ('E' ∉ x.write ↔ x.isZero ∨ firstPlain.size ≤ x.size ∧ x.size < firstScientific.size) ∧
      ('E' ∉ x.write → IsPlain x.write) ∧ ('E' ∈ x.write → IsScientific x.write) ∧
      x.write = chooseByExponent x.exponential x.positional := by
  rw [chooseByExponent_eq_write finite]
  by_cases range : x.isZero ∨ firstPlain.size ≤ x.size ∧ x.size < firstScientific.size
  · have shape := isPlain_write finite range
    have unmarked : 'E' ∉ x.write := shape.not_mem
    exact ⟨iff_of_true unmarked range, fun _ => shape, fun mark => absurd mark unmarked, rfl⟩
  · have shape := isScientific_write finite range
    have marked : 'E' ∈ x.write := shape.mem
    exact ⟨iff_of_false (not_not.mpr marked) range, fun no => absurd marked no, fun _ => shape, rfl⟩

/-- The double next below 1E-4 has an exponent, and the one next below 1E15 has none. -/
theorem plain_or_scientific_write_limits :
    'E' ∈ (⟨0x3f1a36e2eb1c432c⟩ : Double).write ∧ 'E' ∉ (⟨0x430c6bf52633ffff⟩ : Double).write := by
  constructor
  · by_contra unmarked
    have range := (plain_or_scientific_write (x := ⟨0x3f1a36e2eb1c432c⟩) rfl).1.mp unmarked
    rcases range with zero | ⟨least, -⟩
    · cases zero
    · rw [size_le_size_iff] at least
      exact absurd least (by decide +kernel)
  · refine (plain_or_scientific_write rfl).1.mpr (.inr ?_)
    rw [size_le_size_iff, size_lt_size_iff]
    decide +kernel

end Double

end Metrology
