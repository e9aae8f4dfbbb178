import Metrology.Text.Digits

/-!
# Integers as text

An integer is written as its digits, after a minus if it is negative.  It is read
strictly: one sign at most, then one digit or more and nothing else.  Zeros in
front are allowed, blanks are not.

A reader has a range.  It goes from left to right and stops at the first problem.
At one character a wrong digit is found before a value out of range, and a value
out of range before anything that follows.  So the magnitude is built up digit by
digit under a limit (`readMagnitude`), and never leaves the range on its way.
-/

namespace Metrology.Text

/-- Why a text is not an integer of the wanted range. -/
inductive IntegerError where
  /-- There is no character at all. -/
  | empty
  /-- A character is no digit where one is needed. -/
  | invalidDigit
  /-- The value lies above the range. -/
  | tooLarge
  /-- The value lies below the range. -/
  | tooSmall
deriving DecidableEq, Repr

/-- The wording of an integer error. -/
def IntegerError.message : IntegerError → String
  | .empty => "cannot parse integer from empty string"
  | .invalidDigit => "invalid digit found in string"
  | .tooLarge => "number too large to fit in target type"
  | .tooSmall => "number too small to fit in target type"

/-- Reads digits behind the value `acc` of those already read.  A value above
`limit` is reported as `overflow` as soon as a digit leads to it. -/
def readMagnitude (limit : Nat) (overflow : IntegerError) :
    Nat → List Char → Except IntegerError Nat
  | acc, [] => .ok acc
  | acc, c :: cs =>
    if c.isDigit then
      let next := 10 * acc + (c.toNat - '0'.toNat)
      if next ≤ limit then readMagnitude limit overflow next cs else .error overflow
    else .error .invalidDigit

/-- Reads one digit or more. -/
def readDigits (limit : Nat) (overflow : IntegerError) : List Char → Except IntegerError Nat
  | [] => .error .invalidDigit
  | c :: cs => readMagnitude limit overflow 0 (c :: cs)

/-- Reads a natural number up to `limit`, with a plus in front or not. -/
def readNatural (limit : Nat) : List Char → Except IntegerError Nat
  | [] => .error .empty
  | c :: cs =>
    if c = '+' then readDigits limit .tooLarge cs else readDigits limit .tooLarge (c :: cs)

/-- Reads an integer from `-(limit + 1)` to `limit`, with a sign in front or not. -/
def readInteger (limit : Nat) : List Char → Except IntegerError Int
  | [] => .error .empty
  | c :: cs =>
    if c = '+' then (readDigits limit .tooLarge cs).map Int.ofNat
    else if c = '-' then (readDigits (limit + 1) .tooSmall cs).map fun n => -Int.ofNat n
    else (readDigits limit .tooLarge (c :: cs)).map Int.ofNat

/-- The text of an integer. -/
def writeInteger (n : Int) : List Char :=
  if n < 0 then '-' :: digits n.natAbs else digits n.natAbs

end Metrology.Text
