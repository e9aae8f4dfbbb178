import Metrology.Proofs.Text.Digits

/-!
# Texts of integers

What a text of an integer looks like is one thing (`IsIntegerText`), and how large the
integer is that it stands for is another (`integerOf`).  A strict reader takes exactly
the texts of integers within its range (`readInteger_eq_ok_iff`).

The reader builds the magnitude up under its limit and stops as soon as the limit is
passed.  It misses nothing by that, because more digits never make a magnitude smaller
(`le_ofDigitChars`).

A text of an integer comes apart into its sign and its digits in one way only, because no
digit is a sign (`spellsInteger_iff`).
-/

namespace Metrology.Text

/-! ## The language -/

/-- One sign at most, then one digit or more, and nothing else. -/
def IsIntegerText (cs : List Char) : Prop :=
  (takeSign cs).2 ≠ [] ∧ AllDigits (takeSign cs).2

instance : DecidablePred IsIntegerText := fun cs =>
  inferInstanceAs (Decidable ((takeSign cs).2 ≠ [] ∧ AllDigits (takeSign cs).2))

/-- The integer of a sign and digits. -/
def signedValue (negative : Bool) (ds : List Char) : Int :=
  if negative then -(valueOf ds : Int) else valueOf ds

/-- The integer that a text of an integer stands for, however large. -/
def integerOf (cs : List Char) : Int := signedValue (takeSign cs).1 (takeSign cs).2

theorem natAbs_signedValue (negative : Bool) (ds : List Char) :
    (signedValue negative ds).natAbs = valueOf ds := by
  cases negative with
  | false => exact Int.natAbs_natCast _
  | true => exact (Int.natAbs_neg _).trans (Int.natAbs_natCast _)

/-! ## Signs -/

/-- A sign in front of digits, which may be left out. -/
inductive Sign where
  /-- No sign. -/
  | absent
  /-- A plus. -/
  | plus
  /-- A minus. -/
  | minus
deriving DecidableEq, Repr

namespace Sign

/-- The text of a sign. -/
def chars : Sign → List Char
  | absent => []
  | plus => ['+']
  | minus => ['-']

/-- Whether a sign is a minus. -/
def negative : Sign → Bool
  | absent => false
  | plus => false
  | minus => true

end Sign

/-- A text that does not go on with a sign. -/
def NoSignAhead (cs : List Char) : Prop := ∀ c ∈ cs.head?, c ≠ '+' ∧ c ≠ '-'

theorem AllDigits.noSignAhead {ds : List Char} (h : AllDigits ds) : NoSignAhead ds := by
  intro c mem
  have digit := h c (List.mem_of_mem_head? mem)
  constructor
  · rintro rfl
    cases digit
  · rintro rfl
    cases digit

theorem takeSign_chars_append (sign : Sign) {r : List Char} (h : NoSignAhead r) :
    takeSign (sign.chars ++ r) = (sign.negative, r) := by
  cases sign with
  | absent =>
      cases r with
      | nil => rfl
      | cons c r => exact takeSign_of_ne (h c rfl).1 (h c rfl).2 r
  | plus => rfl
  | minus => rfl

/-- What is taken is a sign. -/
theorem exists_sign (cs : List Char) : ∃ sign : Sign,
    sign.negative = (takeSign cs).1 ∧ cs = sign.chars ++ (takeSign cs).2 := by
  unfold takeSign
  split
  next => exact ⟨.plus, rfl, rfl⟩
  next => exact ⟨.minus, rfl, rfl⟩
  next => exact ⟨.absent, rfl, rfl⟩

/-- A text is that of an integer, with one sign at most and any number of zeros in front. -/
def SpellsInteger (cs : List Char) (n : Int) : Prop :=
  ∃ (sign : Sign) (ds : List Char),
    cs = sign.chars ++ ds ∧ ds ≠ [] ∧ AllDigits ds ∧ signedValue sign.negative ds = n

/-- A text is that of a natural number, with one plus at most and any number of zeros in front. -/
def SpellsNatural (cs : List Char) (n : Nat) : Prop :=
  ∃ ds : List Char, (cs = ds ∨ cs = '+' :: ds) ∧ ds ≠ [] ∧ AllDigits ds ∧ valueOf ds = n

/-- The texts of an integer are those that are read as it. -/
theorem spellsInteger_iff {cs : List Char} {n : Int} :
    SpellsInteger cs n ↔ IsIntegerText cs ∧ integerOf cs = n := by
  constructor
  · rintro ⟨sign, ds, rfl, ne, digits, value⟩
    rw [IsIntegerText, integerOf, takeSign_chars_append sign digits.noSignAhead]
    exact ⟨⟨ne, digits⟩, value⟩
  · rintro ⟨⟨ne, digits⟩, value⟩
    obtain ⟨sign, negative, text⟩ := exists_sign cs
    rw [integerOf, ← negative] at value
    exact ⟨sign, (takeSign cs).2, text, ne, digits, value⟩

/-! ## Reading magnitudes -/

/-- More digits never make a magnitude smaller. -/
theorem le_ofDigitChars (acc : Nat) (ds : List Char) : acc ≤ Nat.ofDigitChars 10 ds acc := by
  induction ds generalizing acc with
  | nil => exact Nat.le_refl acc
  | cons d ds ih =>
      rw [Nat.ofDigitChars_cons]
      refine Nat.le_trans ?_ (ih _)
      omega

/-- A magnitude is read from digits that stay within the limit, and the total decides. -/
theorem readMagnitude_eq_ok_iff {limit acc n : Nat} {overflow : IntegerError} {cs : List Char}
    (h : acc ≤ limit) : readMagnitude limit overflow acc cs = .ok n ↔
      AllDigits cs ∧ Nat.ofDigitChars 10 cs acc = n ∧ n ≤ limit := by
  induction cs generalizing acc with
  | nil =>
      rw [readMagnitude, Except.ok.injEq]
      constructor
      · rintro rfl
        exact ⟨allDigits_zeros 0, rfl, h⟩
      · exact fun ⟨_, value, _⟩ => value
  | cons c cs ih =>
      rw [readMagnitude, allDigits_cons, Nat.ofDigitChars_cons]
      by_cases digit : c.isDigit
      · by_cases room : 10 * acc + (c.toNat - '0'.toNat) ≤ limit
        · rw [if_pos digit, if_pos room, ih room, and_iff_right digit]
        · have passed := le_ofDigitChars (10 * acc + (c.toNat - '0'.toNat)) cs
          rw [if_pos digit, if_neg room]
          simp only [reduceCtorEq, false_iff]
          -- The digits still to come do not bring the magnitude back under the limit.
          rintro ⟨_, rfl, within⟩
          exact room (Nat.le_trans passed within)
      · rw [if_neg digit]
        simp only [reduceCtorEq, digit, false_and]

/-- Digits are read as their value if it lies within the limit. -/
theorem readDigits_eq_ok_iff {limit n : Nat} {overflow : IntegerError} {cs : List Char} :
    readDigits limit overflow cs = .ok n ↔
      cs ≠ [] ∧ AllDigits cs ∧ valueOf cs = n ∧ n ≤ limit := by
  cases cs with
  | nil =>
      rw [readDigits]
      simp only [reduceCtorEq, ne_eq, not_true, false_and]
  | cons c cs =>
      rw [readDigits, readMagnitude_eq_ok_iff (Nat.zero_le limit)]
      simp only [ne_eq, reduceCtorEq, not_false_iff, true_and, valueOf]

/-! ## Reading integers -/

theorem map_eq_ok_iff {α β ε : Type} {f : α → β} {x : Except ε α} {b : β} :
    x.map f = .ok b ↔ ∃ a, x = .ok a ∧ f a = b := by
  cases x with
  | error e => simp only [Except.map, reduceCtorEq, false_and, exists_false]
  | ok a => simp only [Except.map, Except.ok.injEq, exists_eq_left']

/-- A strict reader takes the texts of the integers of its range, and gives the integer. -/
theorem readInteger_eq_ok_iff {limit : Nat} {cs : List Char} {n : Int} :
    readInteger limit cs = .ok n ↔
      IsIntegerText cs ∧ integerOf cs = n ∧ -(limit + 1 : Int) ≤ n ∧ n ≤ limit := by
  have plain {ds : List Char} : (readDigits limit .tooLarge ds).map Int.ofNat = .ok n ↔
      (ds ≠ [] ∧ AllDigits ds) ∧ signedValue false ds = n ∧ -(limit + 1 : Int) ≤ n ∧ n ≤ limit := by
    simp only [map_eq_ok_iff, readDigits_eq_ok_iff, signedValue, Int.ofNat_eq_natCast,
      Bool.false_eq_true, if_false]
    constructor
    · rintro ⟨_, ⟨ne, digits, rfl, le⟩, rfl⟩
      exact ⟨⟨ne, digits⟩, rfl, by omega, by omega⟩
    · rintro ⟨⟨ne, digits⟩, rfl, -, le⟩
      exact ⟨_, ⟨ne, digits, rfl, by omega⟩, rfl⟩
  cases cs with
  | nil =>
      rw [readInteger]
      simp only [reduceCtorEq, IsIntegerText, takeSign, ne_eq, not_true, false_and]
  | cons c cs =>
      rw [readInteger]
      by_cases plus : c = '+'
      · rw [if_pos plus, plus]
        exact plain
      · by_cases minus : c = '-'
        · rw [if_neg plus, if_pos minus, minus]
          simp only [map_eq_ok_iff, readDigits_eq_ok_iff, IsIntegerText, integerOf, takeSign,
            signedValue, Int.ofNat_eq_natCast, if_true]
          constructor
          · rintro ⟨_, ⟨ne, digits, rfl, le⟩, rfl⟩
            exact ⟨⟨ne, digits⟩, rfl, by omega, by omega⟩
          · rintro ⟨⟨ne, digits⟩, rfl, le, -⟩
            exact ⟨_, ⟨ne, digits, rfl, by omega⟩, rfl⟩
        · rw [if_neg plus, if_neg minus, IsIntegerText, integerOf, takeSign_of_ne plus minus]
          exact plain

/-- A strict reader takes what one of a wider range takes, as far as its own range goes. -/
theorem readInteger_eq_ok_iff_of_le {limit wider : Nat} (h : limit ≤ wider) {cs : List Char}
    {n : Int} : readInteger limit cs = .ok n ↔
      readInteger wider cs = .ok n ∧ -(limit + 1 : Int) ≤ n ∧ n ≤ limit := by
  rw [readInteger_eq_ok_iff, readInteger_eq_ok_iff]
  constructor
  · rintro ⟨text, value, least, most⟩
    exact ⟨⟨text, value, by omega, by omega⟩, least, most⟩
  · rintro ⟨⟨text, value, -⟩, least, most⟩
    exact ⟨text, value, least, most⟩

/-- A reader of natural numbers takes no minus. -/
theorem readNatural_eq_ok_iff {limit n : Nat} {cs : List Char} :
    readNatural limit cs = .ok n ↔ SpellsNatural cs n ∧ n ≤ limit := by
  constructor
  · intro h
    cases cs with
    | nil => cases h
    | cons c cs =>
        rw [readNatural] at h
        split at h
        next plus =>
          obtain ⟨ne, digits, value, most⟩ := readDigits_eq_ok_iff.mp h
          exact ⟨⟨cs, .inr (congrArg (· :: cs) plus), ne, digits, value⟩, most⟩
        next =>
          obtain ⟨ne, digits, value, most⟩ := readDigits_eq_ok_iff.mp h
          exact ⟨⟨c :: cs, .inl rfl, ne, digits, value⟩, most⟩
  · rintro ⟨⟨ds, rfl | rfl, ne, digits, value⟩, most⟩
    · cases cs with
      | nil => exact absurd rfl ne
      | cons c cs =>
          have plus : c ≠ '+' := (digits.noSignAhead c rfl).1
          rw [readNatural, if_neg plus]
          exact readDigits_eq_ok_iff.mpr ⟨ne, digits, value, most⟩
    · rw [readNatural, if_pos rfl]
      exact readDigits_eq_ok_iff.mpr ⟨ne, digits, value, most⟩

/-! ## Written integers -/

theorem takeSign_writeInteger (n : Int) :
    takeSign (writeInteger n) = (decide (n < 0), digits n.natAbs) := by
  rw [writeInteger]
  by_cases negative : n < 0
  · rw [if_pos negative, decide_eq_true negative]
    rfl
  · rw [if_neg negative, decide_eq_false negative]
    cases text : digits n.natAbs with
    | nil => exact absurd text Nat.toDigits_ne_nil
    | cons d ds =>
        have digit : d.isDigit := allDigits_digits n.natAbs d (text ▸ List.mem_cons_self)
        exact takeSign_of_isDigit digit ds

theorem isIntegerText_writeInteger (n : Int) : IsIntegerText (writeInteger n) := by
  rw [IsIntegerText, takeSign_writeInteger]
  exact ⟨Nat.toDigits_ne_nil, allDigits_digits n.natAbs⟩

/-- The text of an integer stands for it. -/
theorem integerOf_writeInteger (n : Int) : integerOf (writeInteger n) = n := by
  rw [integerOf, takeSign_writeInteger, signedValue, valueOf_digits]
  by_cases negative : n < 0
  · rw [decide_eq_true negative, if_pos rfl]
    omega
  · rw [decide_eq_false negative, if_neg Bool.false_ne_true]
    omega

/-- An integer within the range is read as it was written. -/
theorem readInteger_writeInteger {limit : Nat} {n : Int} (least : -(limit + 1 : Int) ≤ n)
    (most : n ≤ limit) : readInteger limit (writeInteger n) = .ok n :=
  readInteger_eq_ok_iff.mpr
    ⟨isIntegerText_writeInteger n, integerOf_writeInteger n, least, most⟩

theorem noBlank_writeInteger (n : Int) : NoBlank (writeInteger n) := by
  have digits := (allDigits_digits n.natAbs).noBlank
  rw [writeInteger]
  split
  · exact noBlank_cons.mpr ⟨by decide, digits⟩
  · exact digits

end Metrology.Text
