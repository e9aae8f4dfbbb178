import Metrology.Attribute.Value

/-!
# Exact numbers

The number that a native value stands for, apart from the domain it is held in.
Every finite double is a whole number of steps, the smallest positive double being
one step, and so is every integer.  Minus zero is a number of its own.

A domain of integers holds those of a range, in which zero has no sign.
-/

namespace Metrology

/-- A number that a native value can stand for. -/
inductive ExactNumber where
  /-- Zero with a minus in front. -/
  | negativeZero
  /-- A finite number, counted in steps. -/
  | steps (count : Int)
  /-- An infinity. -/
  | infinity (negative : Bool)
deriving DecidableEq, Repr

/-- An integer as an exact number. -/
def ExactNumber.ofInt (n : Int) : ExactNumber := steps (n * Double.stepsPerOne)

/-- The same number, but with one zero only. -/
def ExactNumber.withoutZeroSign : ExactNumber → ExactNumber
  | negativeZero => steps 0
  | number => number

/-- The number that a double stands for. -/
def Double.number? (x : Double) : Option ExactNumber :=
  if x.isNaN then none
  else if x.isInfinite then some (.infinity x.negative)
  else if x.negative then
    some (if x.isZero then .negativeZero else .steps (-Int.ofNat x.steps))
  else some (.steps x.steps)

/-- Whether a value is an integer or a double, a number or not. -/
def Value.isNumeric : Value → Bool
  | .shortInteger _ | .integer _ | .double _ => true
  | _ => false

/-- The number that a value stands for. -/
def Value.number? : Value → Option ExactNumber
  | .shortInteger n => some (.ofInt n.toInt)
  | .integer n => some (.ofInt n.toInt)
  | .double x => x.number?
  | _ => none

/-- Whether a domain holds integers or doubles. -/
def Domain.isNumeric : Domain → Bool
  | .shortInteger | .integer | .double => true
  | _ => false

/-- The largest integer of a domain of integers.  The smallest one is one more below zero. -/
def Domain.largest? : Domain → Option Nat
  | .shortInteger => some 32767
  | .integer => some 2147483647
  | _ => none

/-- Whether an integer is in the range of a domain of integers. -/
def Domain.Holds (d : Domain) (n : Int) : Prop :=
  ∃ largest, d.largest? = some largest ∧ -(largest + 1 : Int) ≤ n ∧ n ≤ largest

end Metrology
