import Metrology.Attribute.Json
import Metrology.Proofs.Json.Integer

/-!
# Integers as payloads

An integer that arrives as JSON should fit 32 bits, and be refused otherwise.  This is so
for the numbers that are read as integers.  Behind them is a gap.  What is longer than any
integer of JSON is read as a double, and a double is always a value.  Minus zero goes the
same way, although zero fits.

So an integer of JSON is one of 32 bits, or it is refused, or it is minus zero, or it lies
outside -2 to the 63rd up to 2 to the 64th (`ofJson_integer`).  There it is a double, unless
it is too large to be read, and the double need not be the nearest one.
-/

namespace Metrology

open Decimal (signed)
open Text

namespace Value

theorem ofDocument_number (n : Json.Number) : ofDocument (.number n) =
    if n.double?.isSome then ofNumber n else .error .malformed := by
  have plain : Json.Document.isPlain (.number n) = n.double?.isSome := Bool.true_and _
  rw [ofDocument, plain]

/-- A number that is read as an integer is one of 32 bits or refused. -/
theorem ofDocument_number_of_integer {n : Json.Number} {i : Int} (integer : n.integer? = some i)
    (readable : n.double?.isSome) : ofDocument (.number n) =
      if -2147483648 ≤ i ∧ i ≤ 2147483647 then .ok (.integer (Int32.ofInt i))
      else .error (.invalidType .longInteger) := by
  rw [ofDocument_number, if_pos readable, ofNumber, integer]

/-- Any other number is a double, unless it is too large to be read. -/
theorem ofDocument_number_of_double {n : Json.Number} (other : n.integer? = none) :
    ofDocument (.number n) =
      match n.double? with
      | some x => .ok (double x)
      | none => .error .malformed := by
  rw [ofDocument_number, ofNumber, other]
  cases n.double? with
  | none => rfl
  | some x => rfl

theorem ofJson_signed (negative : Bool) {ds : List Char} (digits : AllDigits ds) :
    ofJson (String.ofList (signed negative ds)) =
      if Json.isWholePart ds then ofDocument (.number (.ofDigits negative ds))
      else .error .malformed := by
  rw [ofJson, Json.read_signed negative digits]
  by_cases whole : Json.isWholePart ds
  · simp only [if_pos whole]
  · simp only [if_neg whole]

/-- What a number without point and exponent is as a value.  Its size decides. -/
theorem ofDocument_ofDigits (negative : Bool) (ds : List Char) :
    let n := signedValue negative ds
    ofDocument (.number (.ofDigits negative ds)) =
      if negative ∧ n = 0 then .ok (double (.ofMagnitudeBits true 0))
      else if -2147483648 ≤ n ∧ n ≤ 2147483647 then .ok (integer (Int32.ofInt n))
      else if -9223372036854775808 ≤ n ∧ n < 18446744073709551616 then
        .error (.invalidType .longInteger)
      else match (Json.Number.ofDigits negative ds).double? with
        | some x => .ok (double x)
        | none => .error .malformed := by
  intro n
  have abs : n.natAbs = valueOf ds := natAbs_signedValue negative ds
  have integer := Json.Number.integer?_ofDigits negative ds
  by_cases zero : negative ∧ n = 0
  · -- Here the number is not read as an integer, although its size would allow it.
    have none : valueOf ds = 0 := by rw [← abs, zero.2, Int.natAbs_zero]
    have double : (Json.Number.ofDigits negative ds).double? = some (.ofMagnitudeBits true 0) := by
      rw [Json.Number.double?_ofDigits_of_lt negative (by omega), none, zero.1,
        Decimal.nearest_zero]
    rw [if_neg fun both => both.1 zero] at integer
    rw [if_pos zero, ofDocument_number_of_double integer, double]
  · rw [if_neg zero]
    by_cases inside : -9223372036854775808 ≤ n ∧ n < 18446744073709551616
    · have readable : (Json.Number.ofDigits negative ds).double?.isSome := by
        rw [Json.Number.double?_ofDigits_of_lt negative (by omega)]
        rfl
      rw [if_pos ⟨zero, inside⟩] at integer
      rw [ofDocument_number_of_integer integer readable, if_pos inside]
    · have long : ¬ (-2147483648 ≤ n ∧ n ≤ 2147483647) := fun fits => inside (by omega)
      rw [if_neg fun both => inside both.2] at integer
      rw [if_neg long, if_neg inside, ofDocument_number_of_double integer]

end Value

/-- What becomes of an integer in JSON, as a value and as the value of an attribute.  One
with a zero before other digits is no JSON.  All others are integers of 32 bits or refused,
but for two kinds.  Minus zero is a double, and so are those that lie outside -2 to the 63rd
up to 2 to the 64th.  Their double is the nearest one if the digits fit 64 bits.  Otherwise
it is that of the digits that fit, scaled by ten for each of the others, or there is none,
and the text is refused as malformed. -/
theorem Attribute.ofJson_integer (key : Key) (negative : Bool) {ds : List Char}
    (digits : AllDigits ds) :
    let literal := String.ofList (signed negative ds)
    let n := signedValue negative ds
    let double? := (Json.Number.ofDigits negative ds).double?
    let value : Except ValueError Value :=
      if ¬ Json.isWholePart ds then .error .malformed
      else if negative ∧ n = 0 then .ok (.double (.ofMagnitudeBits true 0))
      else if -2147483648 ≤ n ∧ n ≤ 2147483647 then .ok (.integer (Int32.ofInt n))
      else if -9223372036854775808 ≤ n ∧ n < 18446744073709551616 then
        .error (.invalidType .longInteger)
      else match double? with
        | some x => .ok (.double x)
        | none => .error .malformed
    (Value.ofJson literal = value ∧ Attribute.ofJson key literal = value.map (ofValue key)) ∧
      (valueOf ds < 18446744073709551616 →
        double? = some (Decimal.nearest ⟨negative, valueOf ds, 0⟩)) ∧
      (18446744073709551616 ≤ valueOf ds → ∃ kept next rest, ds = kept ++ next :: rest ∧
        valueOf kept < 18446744073709551616 ∧ 18446744073709551616 ≤ valueOf (kept ++ [next]) ∧
        double? = Json.Number.scale? (Decimal.nearest ⟨negative, valueOf kept, 0⟩)
          (rest.length + 1)) := by
  intro literal n double? value
  have read : Value.ofJson literal = value := by
    rw [Value.ofJson_signed negative digits]
    by_cases whole : Json.isWholePart ds
    · rw [if_pos whole, Value.ofDocument_ofDigits]
      exact (if_neg (not_not_intro whole)).symm
    · rw [if_neg whole]
      exact (if_pos whole).symm
  refine ⟨⟨read, ?_⟩, Json.Number.double?_ofDigits_of_lt negative,
    Json.Number.exists_double?_ofDigits_eq negative⟩
  rw [ofJson, read]

/-- The least integer that is refused as too long.  The one below it is a double. -/
theorem Attribute.ofJson_integer_least :
    AllDigits "9223372036854775808".toList ∧
      Value.ofJson "-9223372036854775808" = .error (.invalidType .longInteger) := by
  have digits : AllDigits "9223372036854775808".toList := by decide
  have literal : String.ofList (signed true "9223372036854775808".toList) =
      "-9223372036854775808" := by decide
  have read := (ofJson_integer Key.measuredValue true digits).1.1
  rw [literal] at read
  refine ⟨digits, read.trans ?_⟩
  decide +kernel

/-- Neither 2 to the 64th nor minus zero is an integer of 32 bits or refused. -/
theorem Value.ofJson_twoPow64 :
    Value.ofJson "18446744073709551616" = .ok (.double ⟨0x43f0000000000000⟩) ∧
      Value.ofJson "-0" = .ok (.double ⟨0x8000000000000000⟩) := by
  constructor
  · have read := ofJson_signed false (show AllDigits "18446744073709551616".toList by decide)
    have literal : String.ofList (signed false "18446744073709551616".toList) =
        "18446744073709551616" := by decide
    rw [literal] at read
    rw [read]
    decide +kernel
  · have read := ofJson_signed true (show AllDigits ['0'] by decide)
    have literal : String.ofList (signed true ['0']) = "-0" := by decide
    rw [literal] at read
    rw [read]
    decide +kernel

end Metrology
