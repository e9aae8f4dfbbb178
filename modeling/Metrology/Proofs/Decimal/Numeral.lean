import Metrology.Proofs.Double.Size
import Metrology.Proofs.Double.Text
import Metrology.Proofs.Text.Integer

/-!
# Numerals

The texts of decimals have a grammar.  A *numeral* is a derivation in it: a sign that may
be left out, digits with a point that may be left out and with at least one digit on one
side of it, and an exponent that may be left out.  A text is read as a decimal exactly if
it is the text of a numeral (`read_eq_some_iff`).

The reader goes from left to right and never back.  It can do so because the next
character tells which part comes next: no part ends where another one could go on.  This
is what `NoSignAhead` and `NoDigitAhead` say of the rest of a text.

The number that a numeral stands for does not depend on how it is read.  It is the sum of
the digits before the point and of those behind it, times a power of ten (`Numeral.size`).
-/

namespace Metrology.Decimal

open Text

/-! ## The grammar -/

/-- An exponent of ten behind a number. -/
structure Exponent where
  /-- The letter in front. -/
  mark : Char
  /-- The sign. -/
  sign : Sign
  /-- The digits. -/
  digits : List Char
  isMark : mark = 'e' ∨ mark = 'E'
  allDigits : AllDigits digits
  ne_nil : digits ≠ []

namespace Exponent

/-- The text of an exponent. -/
def chars (e : Exponent) : List Char := e.mark :: (e.sign.chars ++ e.digits)

/-- The exponent as an integer. -/
def value (e : Exponent) : Int := signedValue e.sign.negative e.digits

end Exponent

/-- The point and the digits behind it, if there is a point. -/
def fractionChars : Option (List Char) → List Char
  | none => []
  | some ds => '.' :: ds

/-- The exponent, if there is one. -/
def exponentChars : Option Exponent → List Char
  | none => []
  | some e => e.chars

/-- The power of ten that an exponent stands for.  It is zero if there is no exponent. -/
def powerOf : Option Exponent → Int
  | none => 0
  | some e => e.value

/-- A text of a decimal, taken apart. -/
structure Numeral where
  /-- The sign. -/
  sign : Sign
  /-- The digits before the point. -/
  whole : List Char
  /-- The digits behind the point, if there is a point. -/
  fraction : Option (List Char)
  /-- The exponent, if there is one. -/
  exponent : Option Exponent
  allDigits_whole : AllDigits whole
  allDigits_fraction : ∀ ds ∈ fraction, AllDigits ds
  someDigit : ¬ whole ++ fraction.getD [] = []

namespace Numeral

/-- The text of a numeral behind its sign. -/
def unsigned (n : Numeral) : List Char :=
  n.whole ++ (fractionChars n.fraction ++ exponentChars n.exponent)

/-- The text of a numeral. -/
def chars (n : Numeral) : List Char := n.sign.chars ++ n.unsigned

/-- The digits behind the point. -/
def behind (n : Numeral) : List Char := n.fraction.getD []

/-- What a numeral is read as. -/
def decimal (n : Numeral) : Decimal :=
  ofDigits n.sign.negative n.whole n.behind (powerOf n.exponent)

/-- The magnitude of the number that a numeral stands for. -/
def size (n : Numeral) : ℚ :=
  (valueOf n.whole + valueOf n.behind / 10 ^ n.behind.length) * 10 ^ powerOf n.exponent

end Numeral

/-! ## Exponents -/

/-- Digits of an exponent are read as their value with its sign. -/
theorem readExponentDigits_eq_some_iff {negative : Bool} {ds : List Char} {k : Int} :
    readExponentDigits negative ds = some k ↔
      ds ≠ [] ∧ AllDigits ds ∧ signedValue negative ds = k := by
  rw [readExponentDigits]
  constructor
  · intro h
    split at h
    next text =>
      cases h
      exact ⟨text.1, List.all_eq_true.mp text.2, rfl⟩
    next => cases h
  · rintro ⟨ne, digits, rfl⟩
    rw [if_pos ⟨ne, List.all_eq_true.mpr digits⟩]
    rfl

/-- An exponent is read as the power that it stands for. -/
theorem readExponent_chars (e : Option Exponent) :
    readExponent (exponentChars e) = some (powerOf e) := by
  cases e with
  | none => rfl
  | some e =>
      rw [exponentChars, Exponent.chars, readExponent, if_pos e.isMark,
        takeSign_chars_append e.sign e.allDigits.noSignAhead]
      exact readExponentDigits_eq_some_iff.mpr ⟨e.ne_nil, e.allDigits, rfl⟩

theorem exists_of_readExponent {cs : List Char} {k : Int} (h : readExponent cs = some k) :
    ∃ e : Option Exponent, cs = exponentChars e ∧ powerOf e = k := by
  cases cs with
  | nil =>
      cases h
      exact ⟨none, rfl, rfl⟩
  | cons c cs =>
      rw [readExponent] at h
      split at h
      next mark =>
        obtain ⟨sign, negative, text⟩ := exists_sign cs
        have read : readExponentDigits (takeSign cs).1 (takeSign cs).2 = some k := h
        obtain ⟨ne, digits, value⟩ := readExponentDigits_eq_some_iff.mp read
        rw [← negative] at value
        exact ⟨some ⟨c, sign, (takeSign cs).2, mark, digits, ne⟩, congrArg (c :: ·) text, value⟩
      next => cases h

theorem noDigitAhead_exponentChars (e : Option Exponent) : NoDigitAhead (exponentChars e) := by
  cases e with
  | none => exact noDigitAhead_nil
  | some e =>
      refine noDigitAhead_cons ?_ _
      rcases e.isMark with mark | mark
      · rw [mark]
        rfl
      · rw [mark]
        rfl

theorem not_point_exponentChars (e : Option Exponent) : '.' ∉ (exponentChars e).head? := by
  cases e with
  | none => exact Option.not_mem_none '.'
  | some e =>
      intro mem
      have point : e.mark = '.' := Option.some.inj mem
      rcases e.isMark with mark | mark
      · rw [mark] at point
        cases point
      · rw [mark] at point
        cases point

/-! ## Digits behind a point -/

/-- The fraction of a numeral is taken up to its exponent. -/
theorem takeFraction_chars {fraction : Option (List Char)}
    (digits : ∀ ds ∈ fraction, AllDigits ds) (e : Option Exponent) :
    takeFraction (fractionChars fraction ++ exponentChars e) =
      (fraction.getD [], exponentChars e) := by
  cases fraction with
  | none => exact takeFraction_of_not_point (not_point_exponentChars e)
  | some ds => exact takeFraction_point (digits ds rfl) (noDigitAhead_exponentChars e)

/-- What is taken as a fraction is one. -/
theorem exists_fraction (cs : List Char) : ∃ fraction : Option (List Char),
    fraction.getD [] = (takeFraction cs).1 ∧ cs = fractionChars fraction ++ (takeFraction cs).2 ∧
      ∀ ds ∈ fraction, AllDigits ds := by
  unfold takeFraction
  split
  next cs =>
    refine ⟨some (spanDigits cs).1, rfl, ?_, ?_⟩
    · exact congrArg ('.' :: ·) List.takeWhile_append_dropWhile.symm
    · rintro ds ⟨⟩ c mem
      exact List.mem_takeWhile_imp mem
  next => exact ⟨none, rfl, rfl, nofun⟩

/-! ## Reading numerals -/

namespace Numeral

theorem noDigitAhead_behind_whole (n : Numeral) :
    NoDigitAhead (fractionChars n.fraction ++ exponentChars n.exponent) := by
  cases n.fraction with
  | none => exact noDigitAhead_exponentChars n.exponent
  | some ds => exact noDigitAhead_cons rfl _

/-- Behind the sign comes a digit or a point. -/
theorem noSignAhead_unsigned (n : Numeral) : NoSignAhead n.unsigned := by
  obtain ⟨sign, whole, fraction, exponent, digits, -, some⟩ := n
  cases whole with
  | cons d ds =>
      intro c mem
      exact digits.noSignAhead c mem
  | nil =>
      cases fraction with
      | none => exact absurd rfl some
      | some ds =>
          rintro c ⟨⟩
          decide

end Numeral

/-- The text of a numeral is read as its decimal. -/
theorem read_chars (n : Numeral) : read n.chars = some n.decimal := by
  rw [read, Numeral.chars, takeSign_chars_append n.sign n.noSignAhead_unsigned]
  simp only [Numeral.unsigned, spanDigits_append n.allDigits_whole n.noDigitAhead_behind_whole,
    takeFraction_chars n.allDigits_fraction, if_neg n.someDigit, readExponent_chars,
    Option.map_some]
  rfl

/-- What can be read is a numeral. -/
theorem exists_numeral_of_read {cs : List Char} {d : Decimal} (h : read cs = some d) :
    ∃ n : Numeral, n.chars = cs ∧ n.decimal = d := by
  simp only [read] at h
  obtain ⟨sign, negative, text⟩ := exists_sign cs
  rw [← negative] at h
  generalize (takeSign cs).2 = unsigned at h text
  have parts : (spanDigits unsigned).1 ++ (spanDigits unsigned).2 = unsigned :=
    List.takeWhile_append_dropWhile
  have digits : AllDigits (spanDigits unsigned).1 := fun _ mem => List.mem_takeWhile_imp mem
  generalize (spanDigits unsigned).1 = whole at h parts digits
  generalize (spanDigits unsigned).2 = rest at h parts
  obtain ⟨fraction, behind, point, digits'⟩ := exists_fraction rest
  rw [← behind] at h
  split at h
  next => cases h
  next some =>
    obtain ⟨k, exponent, value⟩ := Option.map_eq_some_iff.mp h
    obtain ⟨e, tail, power⟩ := exists_of_readExponent exponent
    refine ⟨⟨sign, whole, fraction, e, digits, digits', some⟩, ?_, ?_⟩
    · rw [Numeral.chars, Numeral.unsigned, ← tail, ← point, parts, text]
    · rw [Numeral.decimal, power]
      exact value

/-- The texts that are read as decimals are those of numerals. -/
theorem read_eq_some_iff {cs : List Char} {d : Decimal} :
    read cs = some d ↔ ∃ n : Numeral, n.chars = cs ∧ n.decimal = d := by
  constructor
  · exact exists_numeral_of_read
  · rintro ⟨n, rfl, rfl⟩
    exact read_chars n

/-! ## Values -/

/-- Digits behind others are added with their places. -/
theorem valueOf_append (ds es : List Char) :
    valueOf (ds ++ es) = valueOf ds * 10 ^ es.length + valueOf es := by
  rw [valueOf, Nat.ofDigitChars_append, Nat.ofDigitChars_eq_ofDigitChars_zero, Nat.mul_comm]
  rfl

/-- A numeral is read as the number that it stands for. -/
theorem size_decimal (n : Numeral) : n.decimal.size = n.size := by
  have power : (10 : ℚ) ^ n.behind.length ≠ 0 := pow_ne_zero _ (by norm_num)
  have split : (valueOf (n.whole ++ n.behind) : ℚ) =
      (valueOf n.whole + valueOf n.behind / 10 ^ n.behind.length) * 10 ^ n.behind.length := by
    rw [valueOf_append, add_mul, div_mul_cancel₀ _ power]
    push_cast
    rfl
  rw [Numeral.decimal, ofDigits, size, Numeral.size, split, zpow_sub₀ (by norm_num), zpow_natCast,
    mul_assoc, mul_div_cancel₀ _ power]

/-! ## Characters -/

/-- What may stand in a numeral besides its digits. -/
def numeralMarks : List Char := ['+', '-', '.', 'e', 'E']

theorem digitsAnd_sign (sign : Sign) : DigitsAnd numeralMarks sign.chars := by
  intro c mem
  right
  cases sign with
  | absent => cases mem
  | plus =>
      rw [List.mem_singleton.mp mem]
      decide
  | minus =>
      rw [List.mem_singleton.mp mem]
      decide

theorem Exponent.digitsAnd_chars (e : Exponent) : DigitsAnd numeralMarks e.chars := by
  have digits := e.allDigits.digitsAnd numeralMarks
  refine digitsAnd_cons.mpr ⟨.inr ?_, digitsAnd_append.mpr ⟨digitsAnd_sign e.sign, digits⟩⟩
  rcases e.isMark with mark | mark
  · rw [mark]
    decide
  · rw [mark]
    decide

/-- A numeral has digits and marks only. -/
theorem Numeral.digitsAnd_chars (n : Numeral) : DigitsAnd numeralMarks n.chars := by
  have whole := n.allDigits_whole.digitsAnd numeralMarks
  have fraction : DigitsAnd numeralMarks (fractionChars n.fraction) := by
    cases text : n.fraction with
    | none => exact digitsAnd_nil _
    | some ds =>
        have digits := (n.allDigits_fraction ds text).digitsAnd numeralMarks
        exact digitsAnd_cons.mpr ⟨.inr (by decide), digits⟩
  have exponent : DigitsAnd numeralMarks (exponentChars n.exponent) := by
    cases n.exponent with
    | none => exact digitsAnd_nil _
    | some e => exact e.digitsAnd_chars
  have unsigned := digitsAnd_append.mpr ⟨whole, digitsAnd_append.mpr ⟨fraction, exponent⟩⟩
  exact digitsAnd_append.mpr ⟨digitsAnd_sign n.sign, unsigned⟩

end Metrology.Decimal
