/-!
# Doubles

A double is a word of 64 bits: one for the sign, 11 for the exponent and 52 for the
fraction.  The bits below the sign, read as a number, order the magnitudes.  Those
from `infinityBits` on are infinity, and above it the values that are not numbers.

Every finite magnitude is `significand * 2 ^ unit` steps of the smallest positive
double, and `stepsPerOne` such steps make one.  The smallest doubles have unit zero
and fewer than 53 significant bits.  In both cases the bits are `unit * 2 ^ 52 +
significand`, so a significand that grows to 54 bits turns up as the next power of
two by itself.

Two equalities live side by side.  `x = y` is that of the words.  `x == y` is that
of arithmetic, where the two zeros are equal and what is not a number equals
nothing.
-/

namespace Metrology

/-- A binary floating point number of 64 bits. -/
structure Double where
  /-- The bits. -/
  bits : UInt64
deriving DecidableEq, Repr

namespace Double

/-- One more than the largest fraction. -/
abbrev fractionRange : Nat := Nat.pow 2 52

/-- The magnitude bits of infinity. -/
abbrev infinityBits : Nat := 2047 * fractionRange

/-- The number of smallest positive doubles that make one. -/
abbrev stepsPerOne : Nat := Nat.pow 2 1074

/-- The value of the sign bit. -/
abbrev signBit : Nat := Nat.pow 2 63

/-- Whether the sign bit is set. -/
def negative (x : Double) : Bool := signBit ≤ x.bits.toNat

/-- The bits below the sign. -/
def magnitudeBits (x : Double) : Nat := x.bits.toNat % signBit

/-- The double with the given sign and the given bits below it. -/
def ofMagnitudeBits (negative : Bool) (magnitude : Nat) : Double :=
  ⟨UInt64.ofNat (magnitude + if negative then signBit else 0)⟩

/-- Whether a double is not a number. -/
def isNaN (x : Double) : Bool := infinityBits < x.magnitudeBits

/-- Whether a double is one of the two infinities. -/
def isInfinite (x : Double) : Bool := x.magnitudeBits == infinityBits

/-- Whether a double is a number and not infinite. -/
def isFinite (x : Double) : Bool := x.magnitudeBits < infinityBits

/-- Whether a double is one of the two zeros. -/
def isZero (x : Double) : Bool := x.magnitudeBits == 0

/-- A double that is not a number. -/
def nan : Double := ofMagnitudeBits false (infinityBits + Nat.pow 2 51)

/-- The infinity of the given sign. -/
def infinity (negative : Bool) : Double := ofMagnitudeBits negative infinityBits

/-- The significand of a finite double. -/
def significand (x : Double) : Nat :=
  if x.magnitudeBits < fractionRange then x.magnitudeBits
  else x.magnitudeBits % fractionRange + fractionRange

/-- The exponent of two of a finite double, counted from that of the smallest one. -/
def unit (x : Double) : Nat := x.magnitudeBits / fractionRange - 1

/-- The magnitude of a finite double, in steps. -/
def steps (x : Double) : Nat := x.significand * Nat.pow 2 x.unit

/-- The equality of arithmetic. -/
def equals (x y : Double) : Bool :=
  !x.isNaN && !y.isNaN && (x.bits == y.bits || x.isZero && y.isZero)

instance : BEq Double := ⟨equals⟩

end Double

end Metrology
