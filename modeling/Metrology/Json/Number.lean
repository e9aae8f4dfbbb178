import Metrology.Double.Nearest

/-!
# Numbers of JSON

A number is kept as it is written.  It is read as an integer or as a double.

The double is not always the nearest one.  Digits are taken into a whole number for as
long as it fits 64 bits.  Of the others, those before the point are only counted, and
those behind it are dropped.  What was taken becomes the nearest double, and this is
multiplied or divided by a power of ten and rounded again.  So a long number may end
next to the double that is nearest to it.

A product that is infinite is refused, and so are some numbers that are not too large for
doubles.
-/

namespace Metrology.Json

/-- A number as it is written. -/
structure Number where
  /-- Whether a minus stands in front. -/
  negative : Bool
  /-- The digits before the point. -/
  whole : List Char
  /-- The digits behind the point, if there is a point. -/
  fraction : Option (List Char)
  /-- The exponent of ten, if there is a mark for it. -/
  exponent : Option Int
deriving DecidableEq, Repr

namespace Number

/-- The number of a natural number. -/
def ofNat (n : Nat) : Number := ⟨false, Text.digits n, none, none⟩

/-- The integer that a number is read as, if it has neither a point nor an exponent.  Those
from -2 to the 63rd up to 2 to the 64th are, and others are doubles.  So is minus zero, to
keep its sign. -/
def integer? (n : Number) : Option Int :=
  let magnitude := Int.ofNat (Text.valueOf n.whole)
  let value := if n.negative then -magnitude else magnitude
  if n.fraction.isNone ∧ n.exponent.isNone ∧ ¬(n.negative ∧ value = 0) ∧
      -Int.ofNat (Nat.pow 2 63) ≤ value ∧ value < Int.ofNat (Nat.pow 2 64) then
    some value
  else none

/-! ## Scaling -/

/-- The largest power of ten that doubles are scaled by at once. -/
abbrev largestPower : Nat := 308

/-- The double nearest to a power of ten. -/
def powerOfTen (k : Nat) : Double := Decimal.nearest ⟨false, 1, k⟩

/-- Divides by the largest power a number of times, or until nothing is left. -/
def lower : Nat → Double → Double
  | 0, x => x
  | n + 1, x => if x.isZero then x else lower n (x.dividedBy (powerOfTen largestPower))

/-- A finite double times a power of ten.  There is none if it would be infinite, or if the
power is above the largest one.  A power far below one is split into several. -/
def scale? (x : Double) (exponent : Int) : Option Double :=
  if x.isZero then some x
  else if largestPower < exponent then none
  else if 0 ≤ exponent then
    let product := x.times (powerOfTen exponent.toNat)
    if product.isInfinite then none else some product
  else
    let rounds := (exponent.natAbs - 1) / largestPower
    some ((lower rounds x).dividedBy (powerOfTen (exponent.natAbs - largestPower * rounds)))

/-! ## Doubles -/

/-- Digits are taken into whole numbers below this one. -/
abbrev significandRange : Nat := Nat.pow 2 64

/-- Takes digits behind those of a significand for as long as it stays in its range.  Gives
the longer significand, and the digits that are left. -/
def takeSignificand (significand : Nat) : List Char → Nat × List Char
  | [] => (significand, [])
  | d :: ds =>
    let longer := 10 * significand + (d.toNat - '0'.toNat)
    if longer < significandRange then takeSignificand longer ds else (significand, d :: ds)

/-- The largest exponent that is kept, below zero as above. -/
abbrev largestExponent : Nat := 2147483647

/-- The double that a number is read as, if it is not refused as too large. -/
def double? (n : Number) : Option Double :=
  let fraction := n.fraction.getD []
  let (whole, counted) := takeSignificand 0 n.whole
  let (significand, dropped) := takeSignificand whole fraction
  let exponent := Int.ofNat (counted.length + dropped.length) - Int.ofNat fraction.length
  let written := n.exponent.getD 0
  if largestExponent < written.natAbs then
    if significand ≠ 0 ∧ 0 < written then none else some (Double.ofMagnitudeBits n.negative 0)
  else scale? (Decimal.nearest ⟨n.negative, significand, 0⟩) (exponent + written)

end Number

end Metrology.Json
