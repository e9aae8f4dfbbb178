import Metrology.Proofs.Attribute.Coercion
import Metrology.Proofs.Attribute.RoundTrip
import Metrology.Proofs.Calendar.Readers

/-!
# The domains of one text

Which domains an attribute has a value in depends on its text alone.  A native integer
beside the text adds nothing, for it is read back from its text
(`inDomain?_of_largest?`).  So the domains of numbers are nested.  An integer of 16 bits
is one of 32 bits, and an integer of 32 bits is a double, each time the same number.

No text is both a number and an instant.  An instant starts with a year and a hyphen,
and in a number no hyphen follows a digit.
-/

namespace Metrology

open Text Calendar

/-! ## A hyphen behind digits -/

theorem Decimal.read_of_startsWithYear {cs : List Char} (h : StartsWithYear cs) :
    read cs = none := by
  obtain ⟨-, hyphen⟩ := h
  obtain ⟨r, rest⟩ := List.head?_eq_some_iff.mp hyphen
  have point : takeFraction ('-' :: r) = ([], '-' :: r) := takeFraction_of_not_point (by simp)
  have mark : readExponent ('-' :: r) = none := rfl
  simp only [read, rest, point, mark, Option.map_none, ite_self]

theorem Double.read_of_startsWithYear {cs : List Char} (h : StartsWithYear (trim cs)) :
    read cs = none := by
  have other {word : List Char} (plain : ¬ StartsWithYear word) : trim cs ≠ word := by
    rintro rfl
    exact plain h
  have words : ¬ StartsWithYear nanWord ∧ ∀ negative, ¬ StartsWithYear (infinityWord negative) := by
    decide
  rw [read]
  rw [if_neg (other words.1), if_neg (other (words.2 false)), if_neg (other (words.2 true)),
    Decimal.read_of_startsWithYear h, Option.map_none]

/-! ## Native numbers -/

namespace Value

theorem isNumeric_of_number? {v : Value} {n : ExactNumber} (h : v.number? = some n) :
    v.isNumeric := by
  cases v with
  | shortInteger _ | integer _ | double _ => rfl
  | absent | text _ | timestamp _ => cases h

theorem isNumeric_of_domain? {v : Value} {target : Domain} (own : v.domain? = some target)
    (numeric : target.isNumeric) : v.isNumeric := by
  cases v with
  | shortInteger _ | integer _ | double _ => rfl
  | absent => cases own
  | text _ | timestamp _ =>
      cases own
      cases numeric

/-- A native integer is read back from its text. -/
theorem ofText?_canonicalText {target : Domain} {largest : Nat}
    (h : target.largest? = some largest) {w : Value} (domain : w.domain? = some target) :
    w.canonicalText.bind (ofText? target) = some w := by
  obtain ⟨n, integer, -⟩ := exists_number?_of_largest? h domain
  obtain ⟨x, text, number, -⟩ := exists_double (isNumeric_of_number? integer)
  rw [text, Option.bind_some]
  exact (ofText?_write_iff h x).mpr ⟨domain, .ofInt n, number.symm.trans integer, integer⟩

/-- A text that is read in a domain of numbers is read as a double. -/
theorem isSome_readDouble {target : Domain} (numeric : target.isNumeric) {s : String} {w : Value}
    (h : ofText? target s = some w) : (readDouble s).isSome := by
  have integers {largest : Nat} (range : target.largest? = some largest) :
      (readDouble s).isSome := by
    obtain ⟨-, n, read, -⟩ := (ofText?_eq_some_iff range).mp h
    have small := largest?_lt range
    obtain ⟨x, -, double, -⟩ := Double.exists_read_of_readInteger (by omega) read
    rw [readDouble, double]
    rfl
  cases target with
  | shortInteger | integer => exact integers rfl
  | double =>
      obtain ⟨x, read, -⟩ := Option.map_eq_some_iff.mp h
      rw [read]
      rfl
  | text | timestamp | identifier => cases numeric

end Value

namespace Attribute

/-! ## Integers -/

section Integers

variable {target : Domain} {largest : Nat} {a : Attribute}

theorem inDomain?_of_largest? (h : target.largest? = some largest) (a : Attribute) :
    a.inDomain? target = a.text.bind (Value.ofText? target) := by
  rw [inDomain?]
  split
  next own =>
    rcases a.canonical with absent | text
    · rw [absent] at own
      cases own
    · rw [text, Value.ofText?_canonicalText h own]
  next => rfl

/-- What an attribute gives in a domain of integers is the integer of its text. -/
theorem inDomain?_eq_some_iff (h : target.largest? = some largest) {w : Value} :
    a.inDomain? target = some w ↔ w.domain? = some target ∧
      ∃ s n, a.text = some s ∧ readInteger largest (trim s.toList) = .ok n ∧
        w.number? = some (.ofInt n) := by
  rw [inDomain?_of_largest? h, Option.bind_eq_some_iff]
  simp only [Value.ofText?_eq_some_iff h]
  constructor
  · rintro ⟨s, text, domain, n, read, number⟩
    exact ⟨domain, s, n, text, read, number⟩
  · rintro ⟨domain, s, n, text, read, number⟩
    exact ⟨s, text, domain, n, read, number⟩

theorem inDomain?_integer (a : Attribute) :
    a.inDomain? .integer = a.asInteger?.map .integer := by
  rw [inDomain?_of_largest? rfl, asInteger?, Option.map_bind]
  rfl

theorem asInteger?_eq_some_iff {n : Int32} : a.asInteger? = some n ↔
    ∃ s, a.text = some s ∧ readInteger 2147483647 (trim s.toList) = .ok n.toInt := by
  have integer : a.asInteger? = some n ↔ a.inDomain? .integer = some (.integer n) := by
    rw [inDomain?_integer, Option.map_eq_some_iff]
    simp only [Value.integer.injEq, exists_eq_right]
  rw [integer, inDomain?_eq_some_iff rfl]
  constructor
  · rintro ⟨-, s, m, text, read, number⟩
    exact ⟨s, text, ExactNumber.ofInt_inj.mp (Option.some.inj number) ▸ read⟩
  · rintro ⟨s, text, read⟩
    exact ⟨rfl, s, _, text, read, rfl⟩

/-- The integers of 16 bits are the integers of 32 bits that are small enough. -/
theorem inDomain?_shortInteger_iff {w : Value} : a.inDomain? .shortInteger = some w ↔
    ∃ k : Int16, w = .shortInteger k ∧ a.asInteger? = some k.toInt32 := by
  have range : Domain.shortInteger.largest? = some 32767 := rfl
  have narrower : 32767 ≤ 2147483647 := by decide
  simp only [inDomain?_eq_some_iff range, asInteger?_eq_some_iff, Int16.toInt_toInt32,
    readInteger_eq_ok_iff_of_le narrower]
  constructor
  · rintro ⟨domain, s, n, text, ⟨read, -⟩, number⟩
    cases w <;> cases domain
    next k =>
    exact ⟨k, rfl, s, text, ExactNumber.ofInt_inj.mp (Option.some.inj number) ▸ read⟩
  · rintro ⟨k, rfl, s, text, read⟩
    have low := k.le_toInt
    have high := k.toInt_lt
    exact ⟨rfl, s, k.toInt, text, ⟨read, by omega, by omega⟩, rfl⟩

theorem isSome_inDomain?_shortInteger_iff {n : Int32} (h : a.asInteger? = some n) :
    (a.inDomain? .shortInteger).isSome ↔ -32768 ≤ n.toInt ∧ n.toInt ≤ 32767 := by
  simp only [Option.isSome_iff_exists, inDomain?_shortInteger_iff, h, Option.some.injEq]
  constructor
  · rintro ⟨w, k, -, rfl⟩
    have low := k.le_toInt
    have high := k.toInt_lt
    rw [Int16.toInt_toInt32]
    omega
  · rintro ⟨low, high⟩
    have value : (Int16.ofInt n.toInt).toInt = n.toInt := Int16.toInt_ofInt_of_le low (by omega)
    refine ⟨_, Int16.ofInt n.toInt, rfl, Int32.toInt_inj.mp ?_⟩
    rw [Int16.toInt_toInt32, value]

end Integers

/-- The domains of numbers are nested.  An attribute gives an integer of 16 bits where it
gives one of 32 bits that is small enough, and then the same.  Where it gives an integer
it gives a double of the same number. -/
theorem asInteger?_hierarchy (a : Attribute) :
    (∀ w, a.inDomain? .shortInteger = some w ↔
      ∃ k : Int16, w = .shortInteger k ∧ a.asInteger? = some k.toInt32) ∧
    ∀ n : Int32, a.asInteger? = some n →
      ((a.inDomain? .shortInteger).isSome ↔ -32768 ≤ n.toInt ∧ n.toInt ≤ 32767) ∧
      ∃ x m, a.asDouble? = some x ∧ x.number? = some m ∧ m.withoutZeroSign = .ofInt n.toInt := by
  refine ⟨fun w => inDomain?_shortInteger_iff, fun n integer => ?_⟩
  obtain ⟨s, text, read⟩ := asInteger?_eq_some_iff.mp integer
  refine ⟨isSome_inDomain?_shortInteger_iff integer, ?_⟩
  rw [asDouble?_of_text text]
  exact Double.exists_read_of_readInteger (by decide) read

/-- Zeros in front and blanks around do not change an integer, and its size is what keeps
it out of 16 bits. -/
theorem asInteger?_hierarchy_limit :
    (ofText Key.measuredValue " +00032768\n").inDomain? .shortInteger = none ∧
      ∃ x m, (ofText Key.measuredValue " +00032768\n").asDouble? = some x ∧
        x.number? = some m ∧ m.withoutZeroSign = .ofInt 32768 := by
  have integer : (ofText Key.measuredValue " +00032768\n").asInteger? = some 32768 := by decide
  obtain ⟨short, double⟩ := (asInteger?_hierarchy (ofText Key.measuredValue " +00032768\n")).2
    32768 integer
  refine ⟨Option.not_isSome_iff_eq_none.mp fun there => ?_, double⟩
  exact absurd (short.mp there).2 (by decide)

/-! ## Dates -/

theorem isSome_asDouble?_of_isNumeric {a : Attribute} (h : a.raw.isNumeric) :
    a.asDouble?.isSome := by
  rcases a.canonical with absent | text
  · rw [absent] at h
    cases h
  · obtain ⟨x, canonical, -⟩ := Value.exists_double h
    obtain ⟨y, read, -⟩ := Double.exists_read_write x
    rw [asDouble?_of_text (text.trans canonical), Value.readDouble, String.toList_ofList, read]
    rfl

/-- An attribute with a value in any domain of numbers gives a double. -/
theorem isSome_asDouble? {a : Attribute} {target : Domain} (numeric : target.isNumeric)
    {w : Value} (h : a.inDomain? target = some w) : a.asDouble?.isSome := by
  rw [inDomain?] at h
  split at h
  next own => exact isSome_asDouble?_of_isNumeric (Value.isNumeric_of_domain? own numeric)
  next =>
    obtain ⟨s, text, read⟩ := Option.bind_eq_some_iff.mp h
    rw [asDouble?_of_text text]
    exact Value.isSome_readDouble numeric read

theorem asDouble?_of_asInstant? {a : Attribute} {i : Instant} (h : a.asInstant? = some i) :
    a.asDouble? = none := by
  obtain ⟨s, text, read⟩ := Option.bind_eq_some_iff.mp h
  rw [asDouble?_of_text text]
  exact Double.read_of_startsWithYear (startsWithYear_of_readInstant read)

/-- An attribute that is a date is no number in any domain, and one that is built from a
number is no date. -/
theorem asInstant?_not_numeric (a : Attribute) :
    (a.asInstant?.isSome → a.asInteger? = none ∧ a.asDouble? = none ∧
      ∀ target : Domain, target.isNumeric → a.inDomain? target = none) ∧
    (a.raw.isNumeric → a.asInstant? = none) := by
  constructor
  · intro date
    obtain ⟨i, date⟩ := Option.isSome_iff_exists.mp date
    have double := asDouble?_of_asInstant? date
    have numbers (target : Domain) (numeric : target.isNumeric) : a.inDomain? target = none := by
      refine Option.eq_none_iff_forall_ne_some.mpr fun w there => ?_
      have found := isSome_asDouble? numeric there
      rw [double] at found
      cases found
    have integer := numbers .integer rfl
    rw [inDomain?_integer, Option.map_eq_none_iff] at integer
    exact ⟨integer, double, numbers⟩
  · intro numeric
    have found := isSome_asDouble?_of_isNumeric numeric
    refine Option.eq_none_iff_forall_ne_some.mpr fun i date => ?_
    rw [asDouble?_of_asInstant? date] at found
    cases found

/-- The year may have a sign and the other fields one digit, and still no number is read.
The digits of a date without hyphens are a number and no date. -/
theorem asInstant?_not_numeric_signed :
    (ofText Key.time "+2016-1-1").asDouble? = none ∧
      (ofValue Key.measuredValue (.integer 20160101)).asInstant? = none := by
  have date : (ofText Key.time "+2016-1-1").asInstant?.isSome := by decide
  constructor
  · exact ((asInstant?_not_numeric (ofText Key.time "+2016-1-1")).1 date).2.1
  · exact (asInstant?_not_numeric (ofValue Key.measuredValue (.integer 20160101))).2 rfl

end Attribute

end Metrology
