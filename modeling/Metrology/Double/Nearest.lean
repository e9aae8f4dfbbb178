import Metrology.Decimal.Basic
import Metrology.Double.Basic

/-!
# Rounding to the nearest double

A decimal becomes the double nearest to it, and halfway between two doubles the one
with the even significand.  What would round to more than the largest double
becomes infinity, and what lies too close to zero becomes zero.  The sign is kept in
both cases.

The rounding is exact.  Counted in steps a magnitude is a quotient of two whole
numbers, and the unit is the one that gives its whole part 53 bits.  Subtraction
stops at zero, and so the smallest doubles need no case of their own.

Products and quotients of doubles are rounded in the same way.
-/

namespace Metrology

/-- The whole number nearest to `num / den`, and halfway between two the even one. -/
def roundDiv (num den : Nat) : Nat :=
  let low := num / den
  let twice := 2 * (num % den)
  if twice < den then low
  else if den < twice then low + 1
  else low + low % 2

namespace Double

/-- The magnitude bits of the double nearest to `num / den`. -/
def nearestBits (num den : Nat) : Nat :=
  let unit := (num * stepsPerOne / den).log2 - 52
  min (unit * fractionRange + roundDiv (num * stepsPerOne) (den * Nat.pow 2 unit)) infinityBits

/-- The product of two finite doubles. -/
def times (x y : Double) : Double :=
  ofMagnitudeBits (x.negative != y.negative)
    (nearestBits (x.steps * y.steps) (stepsPerOne * stepsPerOne))

/-- The quotient of two finite doubles, where the second one is not zero. -/
def dividedBy (x y : Double) : Double :=
  ofMagnitudeBits (x.negative != y.negative) (nearestBits x.steps y.steps)

end Double

namespace Decimal

/-- The magnitude of a decimal other than zero lies below ten to this power, and not
below a tenth of it. -/
def magnitude (d : Decimal) : Int := (Text.digits d.coefficient).length + d.exponent

/-- The double nearest to a decimal.  Magnitudes of ten to the 310th on are infinite,
and those below ten to minus the 330th are zero, so powers of ten stay small. -/
def nearest (d : Decimal) : Double :=
  if d.coefficient = 0 ∨ d.magnitude < -330 then Double.ofMagnitudeBits d.negative 0
  else if 310 < d.magnitude then Double.infinity d.negative
  else Double.ofMagnitudeBits d.negative (Double.nearestBits d.numerator d.denominator)

end Decimal

end Metrology
