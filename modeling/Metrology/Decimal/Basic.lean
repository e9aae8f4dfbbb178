import Metrology.Text.Digits

/-!
# Decimals

A decimal is a whole coefficient times a power of ten, with a sign in front.  The
sign stays apart, so that there is a negative zero.  Decimals are what number text
says before it is rounded to a machine number.

In text the exponent may be left out, and so may the point, and the digits on one
side of it.
-/

namespace Metrology

/-- A signed coefficient times a power of ten. -/
structure Decimal where
  /-- Whether a minus stands in front. -/
  negative : Bool
  /-- The coefficient. -/
  coefficient : Nat
  /-- The exponent of ten. -/
  exponent : Int
deriving DecidableEq, Repr

namespace Decimal

/-- The numerator of the magnitude.  It holds the powers of ten of a positive exponent. -/
def numerator (d : Decimal) : Nat := d.coefficient * Nat.pow 10 d.exponent.toNat

/-- The denominator of the magnitude.  It holds those of a negative one. -/
def denominator (d : Decimal) : Nat := Nat.pow 10 (-d.exponent).toNat

/-- The decimal with these digits before and after the point, and this exponent
behind them. -/
def ofDigits (negative : Bool) (whole fraction : List Char) (exponent : Int) : Decimal :=
  ⟨negative, Text.valueOf (whole ++ fraction), exponent - fraction.length⟩

/-- Reads digits up to the end of the text as an integer with the given sign. -/
def readExponentDigits (negative : Bool) (ds : List Char) : Option Int :=
  if ds ≠ [] ∧ ds.all Char.isDigit then
    some (if negative then -Int.ofNat (Text.valueOf ds) else Int.ofNat (Text.valueOf ds))
  else none

/-- Reads an exponent with its mark.  At the end of a text it is zero. -/
def readExponent : List Char → Option Int
  | [] => some 0
  | c :: cs =>
    if c = 'e' ∨ c = 'E' then
      let (negative, ds) := Text.takeSign cs
      readExponentDigits negative ds
    else none

/-- The digits after the point at the front of a text, and the text after them.
Without a point there are none. -/
def takeFraction : List Char → List Char × List Char
  | '.' :: cs => Text.spanDigits cs
  | cs => ([], cs)

/-- Reads a whole text as a decimal. -/
def read (cs : List Char) : Option Decimal :=
  let (negative, cs) := Text.takeSign cs
  let (whole, cs) := Text.spanDigits cs
  let (fraction, cs) := takeFraction cs
  if whole ++ fraction = [] then none
  else (readExponent cs).map (ofDigits negative whole fraction)

end Decimal

end Metrology
