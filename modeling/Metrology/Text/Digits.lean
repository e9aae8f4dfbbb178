/-!
# Digit runs

The digits are the ten ASCII ones.  A run of them is read as a number in base
ten, with any number of zeros in front, and a number is written without them.
`takeDigits` reads a field of a bounded number of digits off the front of a text
and hands back the rest.
-/

namespace Metrology.Text

/-- The digits of a number in base ten, without zeros in front. -/
def digits (n : Nat) : List Char := Nat.toDigits 10 n

/-- The number that a run of digits stands for. -/
def valueOf (ds : List Char) : Nat := Nat.ofDigitChars 10 ds 0

/-- The digits of a number, with zeros in front up to the given width. -/
def paddedDigits (width n : Nat) : List Char := (digits n).leftpad width '0'

/-- Writing a number and reading it gives the number. -/
theorem valueOf_digits (n : Nat) : valueOf (digits n) = n := Nat.ofDigitChars_ten_toDigits

/-- The digits at the front of a text, and the text after them. -/
def spanDigits (cs : List Char) : List Char × List Char :=
  (cs.takeWhile Char.isDigit, cs.dropWhile Char.isDigit)

/-- The digits and what follows them make up the text. -/
theorem length_spanDigits (cs : List Char) :
    (spanDigits cs).1.length + (spanDigits cs).2.length = cs.length := by
  rw [← List.length_append]
  exact congrArg List.length List.takeWhile_append_dropWhile

/-- A field of at least `least` and at most `most` digits at the front of a text:
its value and the text after it.  The field takes as many digits as it may. -/
def takeDigits (least most : Nat) (cs : List Char) : Option (Nat × List Char) :=
  let ds := (cs.take most).takeWhile Char.isDigit
  if least ≤ ds.length then some (valueOf ds, cs.drop ds.length) else none

/-- The text after one given character. -/
def takeChar (c : Char) : List Char → Option (List Char)
  | [] => none
  | d :: cs => if d = c then some cs else none

/-- Whether a minus stands at the front of a text, and the text after the sign that
stands there or not. -/
def takeSign : List Char → Bool × List Char
  | '+' :: cs => (false, cs)
  | '-' :: cs => (true, cs)
  | cs => (false, cs)

theorem length_takeSign (cs : List Char) : (takeSign cs).2.length ≤ cs.length := by
  unfold takeSign
  split <;> simp

/-- A text without the given character at its end. -/
def dropTrailing (c : Char) (cs : List Char) : List Char :=
  (cs.reverse.dropWhile (· = c)).reverse

end Metrology.Text
