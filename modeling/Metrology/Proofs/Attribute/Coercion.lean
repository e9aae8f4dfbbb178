import Metrology.Attribute.Basic
import Metrology.Proofs.Attribute.Number
import Metrology.Proofs.Text.Integer

/-!
# Numbers in other domains

A native number is handed out in another domain by reading its text there.  The text
keeps the number, so what is handed out is the number itself or nothing.  It is never
rounded, cut off or wrapped around.

Two facts carry this.  A text of an integer can be read as a double as well, and the
double stands for the integer (`exists_read_of_readInteger`).  And a double that stands
for an integer is written as that integer.  So the integers read from the text of a
double are those that the double stands for (`readInteger_write_iff`).  Minus zero is
the one double whose text is read as another number, for an integer zero has no sign.
-/

namespace Metrology

open Text

namespace ExactNumber

theorem ofInt_inj {m n : Int} : ofInt m = ofInt n ↔ m = n := by
  have pos : (Double.stepsPerOne : Int) ≠ 0 :=
    Int.natCast_ne_zero.mpr Double.stepsPerOne_pos.ne'
  rw [ofInt, ofInt, steps.injEq, Int.mul_eq_mul_right_iff pos]

theorem ofInt_zero : ofInt 0 = steps 0 := congrArg steps (Int.zero_mul _)

end ExactNumber

/-! ## Integers and doubles from one text -/

theorem Decimal.read_of_isIntegerText {cs : List Char} (h : IsIntegerText cs) :
    read cs = some ⟨(takeSign cs).1, valueOf (takeSign cs).2, 0⟩ := by
  obtain ⟨ne, digits⟩ := h
  have span := spanDigits_append digits noDigitAhead_nil
  rw [List.append_nil] at span
  have none : takeFraction [] = ([], []) := rfl
  simp only [read, span, none, List.append_nil, if_neg ne, readExponent_nil, Option.map_some,
    ofDigits]
  rfl

namespace Double

/-- The nearest double to a sign and digits is that of the integer, but for minus zero. -/
theorem nearest_signed {negative : Bool} {ds : List Char} (h : ¬ (negative ∧ valueOf ds = 0)) :
    Decimal.nearest ⟨negative, valueOf ds, 0⟩ = ofInt (signedValue negative ds) := by
  have sign : decide (signedValue negative ds < 0) = negative := by
    cases negative with
    | false => exact decide_eq_false (Int.not_lt.mpr (Int.natCast_nonneg _))
    | true =>
        have pos : 0 < valueOf ds := Nat.pos_of_ne_zero fun zero => h ⟨rfl, zero⟩
        exact decide_eq_true (Int.neg_neg_of_pos (Int.natCast_pos.mpr pos))
  rw [ofInt, sign, natAbs_signedValue]

theorem exists_number?_nearest_signed (negative : Bool) {ds : List Char}
    (h : valueOf ds < 2 ^ 53) :
    ∃ n, (Decimal.nearest ⟨negative, valueOf ds, 0⟩).number? = some n ∧
      n.withoutZeroSign = .ofInt (signedValue negative ds) := by
  by_cases zero : negative ∧ valueOf ds = 0
  · obtain ⟨rfl, none⟩ := zero
    rw [signedValue, none]
    exact ⟨.negativeZero, rfl, ExactNumber.ofInt_zero.symm⟩
  · rw [← natAbs_signedValue negative] at h
    exact ⟨_, nearest_signed zero ▸ number?_ofInt h, rfl⟩

/-- A text that an integer is read from is read as a double of the same number. -/
theorem exists_read_of_readInteger {limit : Nat} (small : limit + 1 < 2 ^ 53) {cs : List Char}
    {n : Int} (h : readInteger limit (trim cs) = .ok n) :
    ∃ x m, read cs = some x ∧ x.number? = some m ∧ m.withoutZeroSign = .ofInt n := by
  obtain ⟨text, rfl, least, most⟩ := readInteger_eq_ok_iff.mp h
  have bound : valueOf (takeSign (trim cs)).2 < 2 ^ 53 := by
    rw [← natAbs_signedValue (takeSign (trim cs)).1]
    change (integerOf (trim cs)).natAbs < 2 ^ 53
    omega
  obtain ⟨m, number, value⟩ := exists_number?_nearest_signed (takeSign (trim cs)).1 bound
  exact ⟨_, m, read_of_trim (Decimal.read_of_isIntegerText text), number, value⟩

/-! ## Integers from the text of a double -/

/-- The integers that are read from the text of a double are those that it stands for. -/
theorem readInteger_write_iff (x : Double) {limit : Nat} (small : limit + 1 < 10 ^ 15) {n : Int} :
    readInteger limit (trim x.write) = .ok n ↔ -(limit + 1 : Int) ≤ n ∧ n ≤ limit ∧
      ∃ m, x.number? = some m ∧ m.withoutZeroSign = .ofInt n := by
  constructor
  · intro h
    obtain ⟨-, -, least, most⟩ := readInteger_eq_ok_iff.mp h
    obtain ⟨y, m, read, number, value⟩ := exists_read_of_readInteger (by omega) h
    obtain ⟨z, read', same⟩ := exists_read_write x
    rw [read] at read'
    cases read'
    exact ⟨least, most, m, same ▸ number, value⟩
  · rintro ⟨least, most, m, number, value⟩
    cases m with
    | negativeZero =>
        -- The sign of zero is written, and the reader of integers drops it.
        have zero : n = 0 := by
          refine (ExactNumber.ofInt_inj.mp ?_).symm
          rw [← value, ExactNumber.ofInt_zero]
          rfl
        have text : x.write = ['-', '0'] := by
          rw [← toDouble_of_number? number]
          decide
        rw [text, zero]
        exact readInteger_eq_ok_iff.mpr ⟨by decide, by decide, by omega, by omega⟩
    | steps count =>
        have same : x = ofInt n := by
          have integer := number?_ofInt (n := n) (by omega)
          rw [← value] at integer
          exact (toDouble_of_number? number).symm.trans (toDouble_of_number? integer)
        rw [same, write_ofInt (by omega), trim_of_noBlank (noBlank_writeInteger n)]
        exact readInteger_writeInteger least most
    | infinity negative => cases value

end Double

namespace Value

/-! ## Domains of integers -/

theorem toOption_map_eq_some_iff {α β ε : Type} {f : α → β} {x : Except ε α} {b : β} :
    x.toOption.map f = some b ↔ ∃ a, x = .ok a ∧ f a = b := by
  cases x with
  | error e => simp [Except.toOption]
  | ok a => simp [Except.toOption]

/-- An integer as a value of a domain of integers. -/
def ofInteger : Domain → Int → Value
  | .shortInteger, n => shortInteger (Int16.ofInt n)
  | _, n => integer (Int32.ofInt n)

section Integers

variable {target : Domain} {largest : Nat}

theorem ofText?_of_largest? (h : target.largest? = some largest) (s : String) :
    ofText? target s =
      (Text.readInteger largest (trim s.toList)).toOption.map (ofInteger target) := by
  cases target with
  | shortInteger =>
      cases h
      exact Option.map_map ..
  | integer =>
      cases h
      exact Option.map_map ..
  | _ => cases h

/-- An integer of the range is the number of one value of the domain. -/
theorem ofInteger_eq_iff (h : target.largest? = some largest) {n : Int}
    (least : -(largest + 1 : Int) ≤ n) (most : n ≤ largest) {w : Value} :
    ofInteger target n = w ↔ w.domain? = some target ∧ w.number? = some (.ofInt n) := by
  cases target with
  | shortInteger =>
      cases h
      have value : (Int16.ofInt n).toInt = n := Int16.toInt_ofInt_of_le (by omega) (by omega)
      constructor
      · rintro rfl
        exact ⟨rfl, congrArg (some <| ExactNumber.ofInt ·) value⟩
      · rintro ⟨domain, number⟩
        cases w <;> cases domain
        next k =>
        rw [← ExactNumber.ofInt_inj.mp (Option.some.inj number)]
        exact congrArg shortInteger (Int16.ofInt_toInt k)
  | integer =>
      cases h
      have value : (Int32.ofInt n).toInt = n := Int32.toInt_ofInt_of_le (by omega) (by omega)
      constructor
      · rintro rfl
        exact ⟨rfl, congrArg (some <| ExactNumber.ofInt ·) value⟩
      · rintro ⟨domain, number⟩
        cases w <;> cases domain
        next k =>
        rw [← ExactNumber.ofInt_inj.mp (Option.some.inj number)]
        exact congrArg integer (Int32.ofInt_toInt k)
  | _ => cases h

/-- What is read in a domain of integers is the integer of the text. -/
theorem ofText?_eq_some_iff (h : target.largest? = some largest) {s : String} {w : Value} :
    ofText? target s = some w ↔ w.domain? = some target ∧
      ∃ n, Text.readInteger largest (trim s.toList) = .ok n ∧ w.number? = some (.ofInt n) := by
  rw [ofText?_of_largest? h, toOption_map_eq_some_iff]
  constructor
  · rintro ⟨n, read, value⟩
    obtain ⟨-, -, least, most⟩ := readInteger_eq_ok_iff.mp read
    obtain ⟨domain, number⟩ := (ofInteger_eq_iff h least most).mp value
    exact ⟨domain, n, read, number⟩
  · rintro ⟨domain, n, read, number⟩
    obtain ⟨-, -, least, most⟩ := readInteger_eq_ok_iff.mp read
    exact ⟨n, read, (ofInteger_eq_iff h least most).mpr ⟨domain, number⟩⟩

/-- Every value of a domain of integers is an integer of the range. -/
theorem exists_number?_of_largest? (h : target.largest? = some largest) {w : Value}
    (domain : w.domain? = some target) :
    ∃ n : Int, w.number? = some (.ofInt n) ∧ -(largest + 1 : Int) ≤ n ∧ n ≤ largest := by
  cases w with
  | shortInteger n =>
      cases domain
      cases h
      have low := n.le_toInt
      have high := n.toInt_lt
      exact ⟨n.toInt, rfl, by omega, by omega⟩
  | integer n =>
      cases domain
      cases h
      have low := n.le_toInt
      have high := n.toInt_lt
      exact ⟨n.toInt, rfl, by omega, by omega⟩
  | absent => cases domain
  | text _ | double _ | timestamp _ =>
      cases domain
      cases h

theorem largest?_lt (h : target.largest? = some largest) : largest + 1 < 10 ^ 15 := by
  cases target with
  | shortInteger | integer =>
      cases h
      decide
  | _ => cases h

/-- The text of a double, read in a domain of integers. -/
theorem ofText?_write_iff (h : target.largest? = some largest) (x : Double) {w : Value} :
    ofText? target (String.ofList x.write) = some w ↔
      w.domain? = some target ∧ ∃ n, x.number? = some n ∧ w.number? = some n.withoutZeroSign := by
  rw [ofText?_eq_some_iff h, String.toList_ofList]
  refine and_congr_right fun domain => ?_
  simp only [Double.readInteger_write_iff x (largest?_lt h)]
  constructor
  · rintro ⟨n, ⟨-, -, m, number, value⟩, same⟩
    exact ⟨m, number, value ▸ same⟩
  · rintro ⟨m, number, same⟩
    obtain ⟨n, integer, least, most⟩ := exists_number?_of_largest? h domain
    have value : m.withoutZeroSign = .ofInt n := Option.some.inj (same.symm.trans integer)
    exact ⟨n, ⟨least, most, m, number, value⟩, integer⟩

/-- An integer domain has a value for every integer of its range, and for no other number. -/
theorem exists_value_iff (h : target.largest? = some largest) {m : ExactNumber} :
    (∃ w : Value, w.domain? = some target ∧ w.number? = some m) ↔
      ∃ n, m = .ofInt n ∧ target.Holds n := by
  constructor
  · rintro ⟨w, domain, number⟩
    obtain ⟨n, integer, least, most⟩ := exists_number?_of_largest? h domain
    exact ⟨n, Option.some.inj (number.symm.trans integer), largest, h, least, most⟩
  · rintro ⟨n, rfl, largest', h', least, most⟩
    exact ⟨ofInteger target n, (ofInteger_eq_iff h' least most).mp rfl⟩

end Integers

/-! ## Doubles -/

/-- The text of an integer, read as a double. -/
theorem ofText?_double_iff {x : Double} {n : Int} (h : x.number? = some (.ofInt n)) {w : Value} :
    ofText? .double (String.ofList x.write) = some w ↔
      w.domain? = some .double ∧ w.number? = some (.ofInt n) := by
  have number : x.isNaN = false := by
    refine Bool.eq_false_iff.mpr fun nan => ?_
    rw [Double.number?_eq_none_iff.mpr nan] at h
    cases h
  rw [ofText?, readDouble, String.toList_ofList, Double.read_write number, Option.map_some,
    Option.some.injEq]
  constructor
  · rintro rfl
    exact ⟨rfl, h⟩
  · rintro ⟨domain, same⟩
    cases w <;> cases domain
    next y =>
    exact congrArg double
      ((Double.toDouble_of_number? h).symm.trans (Double.toDouble_of_number? same))

theorem number?_of_ne_double {v : Value} (h : v.isNumeric) (other : v.domain? ≠ some .double) :
    ∃ n, v.number? = some (.ofInt n) := by
  cases v with
  | shortInteger n | integer n => exact ⟨n.toInt, rfl⟩
  | double x => exact absurd rfl other
  | absent | text _ | timestamp _ => cases h

end Value

namespace Attribute

/-! ## Attributes -/

theorem inDomain?_of_text {a : Attribute} {s : String} (h : a.text = some s) {target : Domain}
    (other : a.raw.domain? ≠ some target) : a.inDomain? target = Value.ofText? target s := by
  rw [inDomain?, if_neg other, h, Option.bind_some]

section Numeric

variable (key : Key) {v : Value} {target : Domain}

/-- A number in another domain of numbers is the same number there. -/
theorem inDomain?_iff_of_ne (h : v.isNumeric) (numeric : target.isNumeric)
    (other : v.domain? ≠ some target) {w : Value} :
    (ofValue key v).inDomain? target = some w ↔ w.domain? = some target ∧
      ∃ n, v.number? = some n ∧ w.number? = some n.withoutZeroSign := by
  obtain ⟨x, text, number, -⟩ := Value.exists_double h
  have read : (ofValue key v).inDomain? target = Value.ofText? target (String.ofList x.write) :=
    inDomain?_of_text text other
  rw [read, number]
  cases target with
  | shortInteger | integer => exact Value.ofText?_write_iff rfl x
  | double =>
      obtain ⟨n, integer⟩ := Value.number?_of_ne_double h other
      rw [number] at integer
      rw [Value.ofText?_double_iff integer, integer]
      simp only [Option.some.injEq, exists_eq_left']
      rfl
  | text | timestamp | identifier => cases numeric

/-- A number is there as a double always, and as an integer if it is one of the range. -/
theorem isSome_inDomain?_iff_of_ne (h : v.isNumeric) (numeric : target.isNumeric)
    (other : v.domain? ≠ some target) :
    ((ofValue key v).inDomain? target).isSome ↔ target = .double ∨
      ∃ m n, v.number? = some m ∧ m.withoutZeroSign = .ofInt n ∧ target.Holds n := by
  have integers {largest : Nat} (range : target.largest? = some largest) :
      ((ofValue key v).inDomain? target).isSome ↔
        ∃ m n, v.number? = some m ∧ m.withoutZeroSign = .ofInt n ∧ target.Holds n := by
    simp only [Option.isSome_iff_exists, inDomain?_iff_of_ne key h numeric other]
    constructor
    · rintro ⟨w, domain, m, number, same⟩
      obtain ⟨n, value, holds⟩ := (Value.exists_value_iff range).mp ⟨w, domain, same⟩
      exact ⟨m, n, number, value, holds⟩
    · rintro ⟨m, n, number, value, holds⟩
      obtain ⟨w, domain, same⟩ := (Value.exists_value_iff range).mpr ⟨n, value, holds⟩
      exact ⟨w, domain, m, number, same⟩
  cases target with
  | shortInteger | integer =>
      rw [integers rfl]
      simp only [reduceCtorEq, false_or]
  | double =>
      obtain ⟨n, integer⟩ := Value.number?_of_ne_double h other
      obtain ⟨x, -, number, -⟩ := Value.exists_double h
      have found : (ofValue key v).inDomain? .double = some (.double x) :=
        (inDomain?_iff_of_ne key h numeric other).mpr
          ⟨rfl, _, integer, number.symm.trans integer⟩
      rw [found]
      exact iff_of_true rfl (.inl rfl)
  | text | timestamp | identifier => cases numeric

end Numeric

/-- A native number is the same in its own domain, bit by bit.  In another domain of
numbers it is the same number, but that zero has no sign there, or it is absent.  It is
there as a double always, and as an integer if it is whole and in the range. -/
theorem inDomain?_exact (key : Key) {v : Value} (h : v.isNumeric) {target : Domain}
    (numeric : target.isNumeric) :
    (∀ w, (ofValue key v).inDomain? target = some w ↔
      if v.domain? = some target then w = v
      else w.domain? = some target ∧
        ∃ n, v.number? = some n ∧ w.number? = some n.withoutZeroSign) ∧
    (((ofValue key v).inDomain? target).isSome ↔
      v.domain? = some target ∨ target = .double ∨
        ∃ m n, v.number? = some m ∧ m.withoutZeroSign = .ofInt n ∧ target.Holds n) := by
  by_cases own : v.domain? = some target
  · have same : (ofValue key v).inDomain? target = some v := if_pos own
    rw [same]
    constructor
    · intro w
      rw [if_pos own, Option.some.injEq, eq_comm]
    · exact iff_of_true rfl (.inl own)
  · constructor
    · intro w
      rw [if_neg own]
      exact inDomain?_iff_of_ne key h numeric own
    · rw [isSome_inDomain?_iff_of_ne key h numeric own]
      exact (or_iff_right own).symm

/-- Minus zero is zero as an integer, and the double 32768 is no short integer. -/
theorem inDomain?_exact_limits :
    (ofValue Key.measuredValue (.double ⟨0x8000000000000000⟩)).inDomain? .integer =
        some (.integer 0) ∧
      (ofValue Key.measuredValue (.double ⟨0x40e0000000000000⟩)).inDomain? .shortInteger =
        none := by
  constructor
  · refine ((inDomain?_exact Key.measuredValue rfl rfl).1 _).mpr ?_
    exact ⟨rfl, .negativeZero, rfl, congrArg some ExactNumber.ofInt_zero⟩
  · refine Option.not_isSome_iff_eq_none.mp fun there => ?_
    rcases (inDomain?_exact Key.measuredValue rfl rfl).2.mp there with own | double | whole
    · cases own
    · cases double
    · obtain ⟨m, n, number, value, largest, range, -, most⟩ := whole
      have exact : (Value.double ⟨0x40e0000000000000⟩).number? = some (.ofInt 32768) := by
        decide +kernel
      cases number.symm.trans exact
      cases range
      rw [← ExactNumber.ofInt_inj.mp value] at most
      exact absurd most (by decide)

end Attribute

end Metrology
