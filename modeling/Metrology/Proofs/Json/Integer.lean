import Metrology.Json.Reading
import Metrology.Proofs.Json.Number

/-!
# Integers in JSON

The text of an integer is a run of digits, perhaps with a minus in front.  JSON has such
a text if there is a digit, and a zero before others is not one of them (`isWholePart`).
The document is then the number with these digits, of whatever size (`read_signed`).
-/

namespace Metrology.Json

open Decimal (signed)
open Text

/-! ## Lexemes -/

theorem lexemes?_nil : lexemes? [] = some [] := by
  rw [lexemes?.eq_def]
  rfl

/-- Where no space stands in front, the first lexeme is taken and then the rest. -/
theorem lexemes?_cons {c : Char} (h : isSpace c = false) (cs : List Char) :
    lexemes? (c :: cs) =
      (takeLexeme (c :: cs)).bind fun next => (lexemes? next.2).map (next.1 :: ·) := by
  have skip : (c :: cs).dropWhile isSpace = c :: cs :=
    List.dropWhile_cons_of_neg (Bool.eq_false_iff.mp h)
  -- The recursion is on the length of the text, so it opens by its equation and not by `rfl`.
  rw [lexemes?.eq_def]
  split
  next eq =>
    rw [skip] at eq
    cases eq
  next eq =>
    rw [skip] at eq
    cases eq
    split
    next taken => rw [taken, Option.bind_none]
    next taken => simp only [taken, Option.bind_some]

/-- Digits make up a number, unless a zero stands before others. -/
theorem takeNumber_of_allDigits (negative : Bool) {ds : List Char} (digits : AllDigits ds) :
    takeNumber negative ds =
      if isWholePart ds then some (.ofDigits negative ds, []) else none := by
  have span := spanDigits_append digits noDigitAhead_nil
  rw [List.append_nil] at span
  simp only [takeNumber, span]
  rfl

/-- A digit starts a number. -/
theorem takeLexeme_of_isDigit {d : Char} (digit : d.isDigit) (ds : List Char) :
    takeLexeme (d :: ds) =
      (takeNumber false (d :: ds)).map fun (n, rest) => (.scalar (.number n), rest) := by
  unfold takeLexeme
  split
  case h_12 => rfl
  all_goals
    next eq =>
    cases eq
    cases digit

theorem isSpace_of_isDigit {d : Char} (digit : d.isDigit) : isSpace d = false := by
  refine Bool.eq_false_iff.mpr fun space => ?_
  simp only [isSpace, Bool.or_eq_true, beq_iff_eq] at space
  rcases space with ((rfl | rfl) | rfl) | rfl <;> cases digit

/-- The text of an integer is one lexeme. -/
theorem takeLexeme_signed (negative : Bool) {ds : List Char} (digits : AllDigits ds) :
    takeLexeme (signed negative ds) =
      if isWholePart ds then some (.scalar (.number (.ofDigits negative ds)), []) else none := by
  have lexeme : takeLexeme (signed negative ds) =
      (takeNumber negative ds).map fun (n, rest) => (.scalar (.number n), rest) := by
    cases negative with
    | true => rfl
    | false =>
        cases ds with
        | nil => rfl
        | cons d ds => exact takeLexeme_of_isDigit (digits d List.mem_cons_self) ds
  rw [lexeme, takeNumber_of_allDigits negative digits]
  split
  · rfl
  · rfl

/-! ## Documents -/

/-- JSON has the text of every integer, unless a zero stands before other digits. -/
theorem read_signed (negative : Bool) {ds : List Char} (digits : AllDigits ds) :
    read (String.ofList (signed negative ds)) =
      if isWholePart ds then some (.number (.ofDigits negative ds)) else none := by
  have lexeme := takeLexeme_signed negative digits
  have space : ∀ c ∈ (signed negative ds).head?, isSpace c = false := by
    intro c mem
    cases negative with
    | true =>
        cases mem
        decide
    | false =>
        cases ds with
        | nil => cases mem
        | cons d ds =>
            cases mem
            exact isSpace_of_isDigit (digits c List.mem_cons_self)
  rw [read, String.toList_ofList]
  cases text : signed negative ds with
  | nil =>
      -- Only without a digit there is no text at all.
      have none : isWholePart ds = false := by
        cases negative with
        | true => cases text
        | false =>
            cases (show ds = [] from text)
            rfl
      rw [none, lexemes?_nil]
      rfl
  | cons c cs =>
      rw [text] at lexeme space
      rw [lexemes?_cons (space c rfl), lexeme]
      split
      · rw [Option.bind_some, lexemes?_nil]
        rfl
      · rfl

end Metrology.Json
