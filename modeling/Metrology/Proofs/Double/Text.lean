import Metrology.Double.Text
import Metrology.Proofs.Double.Nearest

/-!
# Reading back doubles

A decimal is written without the zeros at the end of its coefficient, and whether
the number is written out or with an exponent, its digits are read as a whole number
at the same place.  So another decimal is read than was written, but one that is
rounded to the same double.

For a finite double this is the double itself.  The zeros and what has no digits are
written as words that reading knows.
-/

namespace Metrology

open Text

namespace Decimal

/-! ## Reading the parts of a number -/

/-- A text with the given sign, where only the minus is written. -/
def signed (negative : Bool) (cs : List Char) : List Char := if negative then '-' :: cs else cs

theorem takeSign_signed (negative : Bool) {ds : List Char} (hds : AllDigits ds) (ne : ds ≠ [])
    (r : List Char) : takeSign (signed negative (ds ++ r)) = (negative, ds ++ r) := by
  cases negative with
  | true => rfl
  | false =>
      cases ds with
      | nil => exact absurd rfl ne
      | cons d ds => exact takeSign_of_isDigit (hds d List.mem_cons_self) _

/-- A number is read as the digits before its point, those behind, and its exponent. -/
theorem read_signed (negative : Bool) {whole fraction r r' : List Char} {e : Int}
    (hw : AllDigits whole) (ne : whole ≠ []) (hr : NoDigitAhead r)
    (hf : takeFraction r = (fraction, r')) (he : readExponent r' = some e) :
    read (signed negative (whole ++ r)) = some (ofDigits negative whole fraction e) := by
  have digits : ¬ whole ++ fraction = [] := fun nil => ne (List.append_eq_nil_iff.mp nil).1
  rw [read, takeSign_signed negative hw ne]
  simp only [spanDigits_append hw hr, hf, if_neg digits, he, Option.map_some]

/-- The digits behind a point end where no digit follows. -/
theorem takeFraction_point {ds r : List Char} (hds : AllDigits ds) (hr : NoDigitAhead r) :
    takeFraction ('.' :: (ds ++ r)) = (ds, r) := spanDigits_append hds hr

theorem takeFraction_of_not_point {cs : List Char} (h : '.' ∉ cs.head?) :
    takeFraction cs = ([], cs) := by
  rw [takeFraction]
  rintro ds rfl
  exact h rfl

theorem readExponent_nil : readExponent [] = some 0 := rfl

/-! ## Reading digits with a point -/

/-- These digits as a coefficient, with the point after as many of them as `before` says. -/
def pointed (negative : Bool) (ds : List Char) (before : Int) : Decimal :=
  ⟨negative, valueOf ds, before - ds.length⟩

theorem ofDigits_eq_pointed (negative : Bool) {whole fraction ds : List Char} {e before : Int}
    (value : valueOf (whole ++ fraction) = valueOf ds)
    (place : e - fraction.length = before - ds.length) :
    ofDigits negative whole fraction e = pointed negative ds before := by
  rw [ofDigits, value, place]
  rfl

theorem ne_nil_of_valueOf_pos {ds : List Char} (pos : 0 < valueOf ds) : ds ≠ [] := by
  rintro rfl
  exact absurd pos (by decide)

/-- A number below one is read with the zeros behind its point. -/
theorem read_zeros_append (negative : Bool) {ds : List Char} (hds : AllDigits ds) (n : Nat) :
    read (signed negative ('0' :: '.' :: List.replicate n '0' ++ ds)) =
      some (pointed negative ds (-n)) := by
  have zero : AllDigits ['0'] := allDigits_zeros 1
  have fraction : AllDigits (List.replicate n '0' ++ ds) :=
    allDigits_append.mpr ⟨allDigits_zeros n, hds⟩
  have back := read_signed negative zero (List.cons_ne_nil '0' []) (noDigitAhead_cons rfl _)
    (takeFraction_point fraction noDigitAhead_nil) readExponent_nil
  have value : valueOf (['0'] ++ (List.replicate n '0' ++ ds)) = valueOf ds :=
    (valueOf_zeros_append 1 _).trans (valueOf_zeros_append n ds)
  have place : (0 : Int) - (List.replicate n '0' ++ ds).length = -n - ds.length := by
    rw [List.length_append, List.length_replicate]
    omega
  rw [ofDigits_eq_pointed negative value place, List.append_nil] at back
  exact back

/-- A whole number is read with the zeros at its end. -/
theorem read_append_zeros (negative : Bool) {ds : List Char} (hds : AllDigits ds)
    (pos : 0 < valueOf ds) (n : Nat) :
    ∃ d, read (signed negative (ds ++ List.replicate n '0')) = some d ∧
      d.nearest = (pointed negative ds (ds.length + n)).nearest := by
  have whole : AllDigits (ds ++ List.replicate n '0') :=
    allDigits_append.mpr ⟨hds, allDigits_zeros n⟩
  have ne : ds ++ List.replicate n '0' ≠ [] := by
    intro nil
    exact ne_nil_of_valueOf_pos pos (List.append_eq_nil_iff.mp nil).1
  have back := read_signed negative whole ne noDigitAhead_nil
    (takeFraction_of_not_point (Option.not_mem_none '.')) readExponent_nil
  rw [List.append_nil] at back
  refine ⟨_, back, ?_⟩
  have place : (0 : Int) - ([] : List Char).length + n = ds.length + n - ds.length := by
    rw [List.length_nil]
    omega
  rw [ofDigits, pointed, List.append_nil, valueOf_append_zeros, nearest_mul_pow negative pos, place]

/-- A number with a point among its digits is read with the point in its place. -/
theorem read_point (negative : Bool) {ds : List Char} (hds : AllDigits ds) {n : Nat}
    (pos : 0 < n) (lt : n < ds.length) :
    read (signed negative (ds.take n ++ '.' :: ds.drop n)) = some (pointed negative ds n) := by
  have parts : AllDigits (ds.take n) ∧ AllDigits (ds.drop n) := by
    rwa [← allDigits_append, List.take_append_drop]
  have length : (ds.take n).length = n := List.length_take_of_le (Nat.le_of_lt lt)
  have ne : ds.take n ≠ [] := by
    intro nil
    rw [nil, List.length_nil] at length
    omega
  have back := read_signed negative parts.1 ne (noDigitAhead_cons rfl _)
    (takeFraction_point parts.2 noDigitAhead_nil) readExponent_nil
  have value : valueOf (ds.take n ++ ds.drop n) = valueOf ds := by rw [List.take_append_drop]
  have place : (0 : Int) - (ds.drop n).length = n - ds.length := by
    rw [List.length_drop]
    omega
  rw [ofDigits_eq_pointed negative value place, List.append_nil] at back
  exact back

/-- What is read from a number that is written out. -/
theorem read_plain (negative : Bool) {ds : List Char} (hds : AllDigits ds) (pos : 0 < valueOf ds)
    (before : Int) : ∃ d, read (signed negative (plain ds before)) = some d ∧
      d.nearest = (pointed negative ds before).nearest := by
  rw [plain]
  by_cases none : before ≤ 0
  · have zeros : before = -((-before).toNat : Int) := by omega
    rw [if_pos none]
    refine ⟨_, read_zeros_append negative hds (-before).toNat, ?_⟩
    rw [← zeros]
  · by_cases all : ds.length ≤ before
    · have zeros : before = ds.length + ((before.toNat - ds.length : Nat) : Int) := by omega
      rw [if_neg none, if_pos all]
      obtain ⟨d, back, nearest⟩ := read_append_zeros negative hds pos (before.toNat - ds.length)
      rw [← zeros] at nearest
      exact ⟨d, back, nearest⟩
    · have digits : before = (before.toNat : Int) := by omega
      rw [if_neg none, if_neg all]
      refine ⟨_, read_point negative hds (n := before.toNat) (by omega) (by omega), ?_⟩
      rw [← digits]

/-! ## Reading digits with an exponent -/

theorem readExponentDigits_paddedDigits (negative : Bool) (n : Nat) :
    readExponentDigits negative (paddedDigits 2 n) =
      some (if negative then -Int.ofNat n else Int.ofNat n) := by
  have ne : paddedDigits 2 n ≠ [] := paddedDigits_ne_nil Nat.two_pos n
  have digits : (paddedDigits 2 n).all Char.isDigit = true :=
    List.all_eq_true.mpr (allDigits_paddedDigits 2 n)
  rw [readExponentDigits, if_pos ⟨ne, digits⟩, valueOf_paddedDigits]

/-- An exponent is read as it was written. -/
theorem readExponent_write (e : Int) :
    readExponent ('E' :: (if e < 0 then '-' else '+') :: paddedDigits 2 e.natAbs) = some e := by
  rw [readExponent, if_pos (.inr rfl)]
  by_cases negative : e < 0
  · rw [if_pos negative]
    have magnitude : -Int.ofNat e.natAbs = e := by
      rw [Int.ofNat_eq_natCast]
      omega
    exact (readExponentDigits_paddedDigits true e.natAbs).trans (congrArg some magnitude)
  · rw [if_neg negative]
    have magnitude : Int.ofNat e.natAbs = e := by
      rw [Int.ofNat_eq_natCast]
      omega
    exact (readExponentDigits_paddedDigits false e.natAbs).trans (congrArg some magnitude)

/-- What is read from a number with an exponent. -/
theorem read_scientific (negative : Bool) {ds : List Char} (hds : AllDigits ds) (ne : ds ≠ [])
    (exponent : Int) : read (signed negative (scientific ds exponent)) =
      some (pointed negative ds (exponent + 1)) := by
  cases ds with
  | nil => exact absurd rfl ne
  | cons d ds =>
      have first : AllDigits [d] := by
        intro c mem
        rw [List.mem_singleton.mp mem]
        exact hds d List.mem_cons_self
      have rest : AllDigits ds := fun c mem => hds c (List.mem_cons_of_mem d mem)
      have mark : NoDigitAhead ('E' :: (if exponent < 0 then '-' else '+') ::
          paddedDigits 2 exponent.natAbs) := noDigitAhead_cons rfl _
      have place : exponent - ds.length = exponent + 1 - (d :: ds).length := by
        rw [List.length_cons]
        omega
      have value : valueOf ([d] ++ ds) = valueOf (d :: ds) := rfl
      rw [← ofDigits_eq_pointed negative value place]
      cases ds with
      | nil =>
          exact read_signed negative first (List.cons_ne_nil d []) mark
            (takeFraction_of_not_point (by simp)) (readExponent_write exponent)
      | cons d' ds =>
          have back := read_signed negative first (List.cons_ne_nil d []) (noDigitAhead_cons rfl _)
            (takeFraction_point rest mark) (readExponent_write exponent)
          simpa [scientific] using back

/-! ## Reading what is written -/

/-- The digits of a number without the zeros at the end stand for the number, with as
many powers of ten taken out. -/
theorem exists_significant {c : Nat} (h : c ≠ 0) : ∃ n,
    0 < valueOf (dropTrailing '0' (digits c)) ∧
    c = valueOf (dropTrailing '0' (digits c)) * 10 ^ n ∧
    (digits c).length = (dropTrailing '0' (digits c)).length + n := by
  have value := valueOf_digits c
  obtain ⟨n, zeros⟩ := exists_append_dropTrailing '0' (digits c)
  generalize dropTrailing '0' (digits c) = ds at zeros ⊢
  rw [zeros, valueOf_append_zeros] at value
  have pos : 0 < valueOf ds := by
    refine Nat.pos_iff_ne_zero.mpr fun zero => h ?_
    rw [← value, zero, Nat.zero_mul]
  have length : (digits c).length = ds.length + n := by
    rw [zeros, List.length_append, List.length_replicate]
  exact ⟨n, pos, value.symm, length⟩

/-- The text is that of the digits without those zeros, in one of two forms. -/
theorem write_eq_plain_or_scientific (d : Decimal) :
    ∃ before, before = d.exponent + (digits d.coefficient).length ∧
      (d.write = signed d.negative (plain (dropTrailing '0' (digits d.coefficient)) before) ∨
        d.write = signed d.negative
          (scientific (dropTrailing '0' (digits d.coefficient)) (before - 1))) := by
  refine ⟨_, rfl, ?_⟩
  by_cases range : firstPlainExponent ≤ d.exponent + (digits d.coefficient).length - 1 ∧
      d.exponent + (digits d.coefficient).length - 1 < firstScientificExponent
  · left
    simp only [write, if_pos range, Int.sub_add_cancel, signed]
  · right
    simp only [write, if_neg range, signed]

/-- A decimal and the one read from its text are rounded to the same double. -/
theorem read_write {d : Decimal} (h : d.coefficient ≠ 0) :
    ∃ e, read d.write = some e ∧ e.nearest = d.nearest := by
  obtain ⟨before, place, text⟩ := write_eq_plain_or_scientific d
  obtain ⟨n, pos, value, length⟩ := exists_significant h
  have hds := allDigits_dropTrailing '0' (allDigits_digits d.coefficient)
  obtain ⟨negative, c, exponent⟩ := d
  simp only at place text hds pos value length ⊢
  generalize dropTrailing '0' (digits c) = ds at text hds pos value length ⊢
  -- The zeros that were left out turn up in the exponent.
  have same : (pointed negative ds before).nearest = nearest ⟨negative, c, exponent⟩ := by
    have power : before - ds.length = exponent + n := by omega
    rw [pointed, power, value, nearest_mul_pow negative pos]
  rw [← same]
  rcases text with text | text
  · rw [text]
    exact read_plain negative hds pos before
  · have back := read_scientific negative hds (ne_nil_of_valueOf_pos pos) (before - 1)
    rw [Int.sub_add_cancel] at back
    exact ⟨_, text ▸ back, rfl⟩

/-! ## Characters -/

/-- What stands between the digits of a number. -/
def marks : List Char := ['-', '+', '.', 'E']

/-- A number that is written out has digits and marks only. -/
theorem digitsAnd_plain {ds : List Char} (hds : AllDigits ds) (before : Int) :
    DigitsAnd marks (plain ds before) := by
  have zeros (n : Nat) : DigitsAnd marks (List.replicate n '0') := (allDigits_zeros n).digitsAnd _
  have digits := hds.digitsAnd marks
  have point : '.' ∈ marks := by decide
  rw [plain]
  split
  · exact digitsAnd_append.mpr
      ⟨digitsAnd_cons.mpr ⟨.inl rfl, digitsAnd_cons.mpr ⟨.inr point, zeros _⟩⟩, digits⟩
  · split
    · exact digitsAnd_append.mpr ⟨digits, zeros _⟩
    · have whole : DigitsAnd marks (ds.take before.toNat) := fun c mem =>
        digits c (List.mem_of_mem_take mem)
      have fraction : DigitsAnd marks (ds.drop before.toNat) := fun c mem =>
        digits c (List.mem_of_mem_drop mem)
      exact digitsAnd_append.mpr ⟨whole, digitsAnd_cons.mpr ⟨.inr point, fraction⟩⟩

/-- So has one with an exponent. -/
theorem digitsAnd_scientific {ds : List Char} (hds : AllDigits ds) (exponent : Int) :
    DigitsAnd marks (scientific ds exponent) := by
  have digits := hds.digitsAnd marks
  have whole : DigitsAnd marks (ds.take 1) := fun c mem => digits c (List.mem_of_mem_take mem)
  have fraction : DigitsAnd marks (ds.drop 1) := fun c mem => digits c (List.mem_of_mem_drop mem)
  have point : DigitsAnd marks (if ds.length ≤ 1 then [] else ['.']) := by
    split
    · exact digitsAnd_nil _
    · exact digitsAnd_cons.mpr ⟨.inr (by decide), digitsAnd_nil _⟩
  have sign : (if exponent < 0 then '-' else '+') ∈ marks := by split <;> decide
  have mark : 'E' ∈ marks := by decide
  have power := (allDigits_paddedDigits 2 exponent.natAbs).digitsAnd marks
  simp only [scientific, digitsAnd_append, digitsAnd_cons, whole, fraction, point, sign, mark,
    power, or_true, and_self]

theorem digitsAnd_signed (negative : Bool) {cs : List Char} (h : DigitsAnd marks cs) :
    DigitsAnd marks (signed negative cs) := by
  cases negative with
  | false => exact h
  | true => exact digitsAnd_cons.mpr ⟨.inr (by decide), h⟩

theorem digitsAnd_write (d : Decimal) : DigitsAnd marks d.write := by
  have digits := allDigits_dropTrailing '0' (allDigits_digits d.coefficient)
  obtain ⟨before, -, text | text⟩ := write_eq_plain_or_scientific d
  · rw [text]
    exact digitsAnd_signed _ (digitsAnd_plain digits before)
  · rw [text]
    exact digitsAnd_signed _ (digitsAnd_scientific digits (before - 1))

/-- The text of a decimal has no blanks. -/
theorem noBlank_write (d : Decimal) : NoBlank d.write := by
  have plain : NoBlank marks := by
    simp only [marks, noBlank_cons, noBlank_nil, and_true]
    decide
  exact d.digitsAnd_write.noBlank plain

end Decimal

namespace Double

/-! ## Words and numbers -/

/-- A text that a decimal can be read from is none of the words. -/
theorem read_of_trim {cs : List Char} {d : Decimal} (h : Decimal.read (trim cs) = some d) :
    read cs = some d.nearest := by
  have other {word : List Char} (none : Decimal.read word = none) : trim cs ≠ word := by
    rintro rfl
    rw [h] at none
    cases none
  rw [read]
  rw [if_neg (other rfl), if_neg (other rfl), if_neg (other rfl), h, Option.map_some]

theorem read_of_decimal {cs : List Char} {d : Decimal} (plain : NoBlank cs)
    (h : Decimal.read cs = some d) : read cs = some d.nearest :=
  read_of_trim ((congrArg Decimal.read (trim_of_noBlank plain)).trans h)

theorem read_nanWord : read nanWord = some nan := rfl

theorem read_infinityWord (negative : Bool) :
    read (infinityWord negative) = some (infinity negative) := by
  cases negative with
  | false => rfl
  | true => rfl

/-- An infinite double is the infinity of its sign. -/
theorem eq_infinity {x : Double} (h : x.isInfinite) : x = infinity x.negative := by
  have bits : x.magnitudeBits = infinityBits := eq_of_beq h
  rw [infinity, ← bits, ofMagnitudeBits_magnitudeBits]

/-- A zero is the zero of its sign. -/
theorem eq_zero {x : Double} (h : x.isZero) : x = ofMagnitudeBits x.negative 0 := by
  have bits : x.magnitudeBits = 0 := eq_of_beq h
  rw [← bits, ofMagnitudeBits_magnitudeBits]

theorem read_zero (negative : Bool) :
    read (if negative then ['-', '0'] else ['0']) = some (ofMagnitudeBits negative 0) := by
  cases negative with
  | false => rfl
  | true => rfl

/-! ## Reading what is written -/

/-- Every double is finite, infinite or not a number, and only one of these. -/
theorem isFinite_iff {x : Double} : x.isFinite ↔ x.isNaN = false ∧ x.isInfinite = false := by
  simp only [isFinite, isNaN, isInfinite, decide_eq_true_eq, decide_eq_false_iff_not,
    beq_eq_false_iff_ne]
  omega

/-- A finite double other than zero is written as its shortest decimal. -/
theorem write_of_isFinite {x : Double} (h : x.isFinite) (ne : x.isZero = false) :
    x.write = x.shortest.write := by
  obtain ⟨number, bounded⟩ := isFinite_iff.mp h
  simp only [write, number, bounded, ne, Bool.false_eq_true, if_false]

theorem coefficient_shortest_ne_zero {x : Double} (h : x.isFinite) (ne : x.isZero = false) :
    x.shortest.coefficient ≠ 0 := by
  intro zero
  have back := nearest_shortest h ne
  rw [Decimal.nearest, if_pos (.inl zero)] at back
  have bits : x.magnitudeBits = 0 := by
    rw [← back, magnitudeBits_ofMagnitudeBits _ (by decide)]
  rw [isZero, bits] at ne
  cases ne

/-- Every double that is a number is read back bit by bit. -/
theorem read_write {x : Double} (h : x.isNaN = false) : read x.write = some x := by
  cases infinite : x.isInfinite with
  | true => rw [write, h, if_neg Bool.false_ne_true, if_pos infinite, read_infinityWord,
      ← eq_infinity infinite]
  | false =>
      have finite := isFinite_iff.mpr ⟨h, infinite⟩
      cases zero : x.isZero with
      | true =>
          rw [write, h, infinite, if_neg Bool.false_ne_true, if_neg Bool.false_ne_true,
            if_pos zero, read_zero, ← eq_zero zero]
      | false =>
          have coefficient := coefficient_shortest_ne_zero finite zero
          obtain ⟨d, back, nearest⟩ := Decimal.read_write coefficient
          rw [write_of_isFinite finite zero, read_of_decimal (Decimal.noBlank_write _) back,
            nearest, nearest_shortest finite zero]

end Double

end Metrology
