import Metrology.Double.Shortest
import Metrology.Text.Blank

/-!
# Doubles as text

A double is written with the digits of its shortest decimal.  If the first digit
stands for a power of ten from the fourth below one up to the fourteenth above, the
number is written out, with a point only where there is something behind it.
Otherwise there is one digit before the point, and the exponent follows behind an
`E`, with its sign and at least two digits.  Zero keeps its sign.  The values that
have no digits are written as words.

Reading forgives blanks around the text.  It takes these words and no others, and
besides them any decimal.
-/

namespace Metrology

namespace Decimal

/-- The smallest exponent of the first digit with which a number is written out. -/
def firstPlainExponent : Int := -4

/-- The smallest exponent above it with which a number is no longer written out. -/
def firstScientificExponent : Int := 15

/-- The given digits with a point after as many of them as `before` says, and with
zeros where there are no digits. -/
def plain (ds : List Char) (before : Int) : List Char :=
  if before ≤ 0 then '0' :: '.' :: List.replicate (-before).toNat '0' ++ ds
  else if ds.length ≤ before then ds ++ List.replicate (before.toNat - ds.length) '0'
  else ds.take before.toNat ++ '.' :: ds.drop before.toNat

/-- The given digits with a point after the first one, and with an exponent. -/
def scientific (ds : List Char) (exponent : Int) : List Char :=
  let point := if ds.length ≤ 1 then [] else ['.']
  let sign := if exponent < 0 then '-' else '+'
  ds.take 1 ++ point ++ ds.drop 1 ++ 'E' :: sign :: Text.paddedDigits 2 exponent.natAbs

/-- The text of a decimal other than zero. -/
def write (d : Decimal) : List Char :=
  let ds := Text.digits d.coefficient
  let significant := Text.dropTrailing '0' ds
  let exponent := d.exponent + ds.length - 1
  let unsigned :=
    if firstPlainExponent ≤ exponent ∧ exponent < firstScientificExponent then
      plain significant (exponent + 1)
    else scientific significant exponent
  if d.negative then '-' :: unsigned else unsigned

end Decimal

namespace Double

/-- The word for what is not a number. -/
def nanWord : List Char := "NaN".toList

/-- The words for the infinities. -/
def infinityWord (negative : Bool) : List Char :=
  (if negative then "-Infinity" else "Infinity").toList

/-- The canonical text of a double. -/
def write (x : Double) : List Char :=
  if x.isNaN then nanWord
  else if x.isInfinite then infinityWord x.negative
  else if x.isZero then if x.negative then ['-', '0'] else ['0']
  else x.shortest.write

/-- Reads a double from a text with blanks around it. -/
def read (cs : List Char) : Option Double :=
  let cs := Text.trim cs
  if cs = nanWord then some nan
  else if cs = infinityWord false then some (infinity false)
  else if cs = infinityWord true then some (infinity true)
  else (Decimal.read cs).map Decimal.nearest

end Double

end Metrology
