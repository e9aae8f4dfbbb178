import Metrology.Double.Nearest

/-!
# Shortest decimals

The decimal of a double has as few digits as can be, so long as reading it gives the
double again.  Of several such decimals it is the one nearest to the exact value,
and of two that are equally near the one with the larger magnitude.

For a given number of digits the decimals form a grid.  If any of them reads back as
the double, then so does one of the two next to the exact value, one on either side,
because the values that round to one double have no gaps.  So only these two are
tried, with one digit first and then with more.  Seventeen are always enough.  Behind
them stands the exact value, which is a decimal too.
-/

namespace Metrology.Double

/-- Three hundred and twenty-four places after the point are enough to see the first
digit of the smallest double. -/
abbrev places : Nat := 324

/-- The exponent of ten of the first digit of a finite double other than zero. -/
def leadingExponent (x : Double) : Int :=
  Int.ofNat (Text.digits (x.steps * Nat.pow 10 places / stepsPerOne)).length - 1 - places

/-- The decimals that are multiples of ten to `exponent` and next to the magnitude of
a finite double, the nearer one first. -/
def neighbours (x : Double) (exponent : Int) : List Decimal :=
  let num := x.steps * Nat.pow 10 (-exponent).toNat
  let den := stepsPerOne * Nat.pow 10 exponent.toNat
  let low : Decimal := ⟨x.negative, num / den, exponent⟩
  let high : Decimal := ⟨x.negative, num / den + 1, exponent⟩
  if 2 * (num % den) < den then [low, high] else [high, low]

/-- The exact value of a finite double. -/
def exactDecimal (x : Double) : Decimal := ⟨x.negative, x.steps * Nat.pow 5 1074, -1074⟩

/-- The decimals that may stand for a finite double, the best one first. -/
def candidates (x : Double) : List Decimal :=
  let first := x.leadingExponent
  (List.range 17).flatMap fun n => x.neighbours (first - Int.ofNat n)

/-- The shortest decimal that reads back as a finite double other than zero. -/
def shortest (x : Double) : Decimal :=
  (x.candidates.find? fun d => d.nearest = x).getD x.exactDecimal

end Metrology.Double
