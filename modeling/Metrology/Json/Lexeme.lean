import Metrology.Json.Document

/-!
# JSON lexemes

The lexemes of JSON text are brackets, colons, commas, words, numbers and strings.
Between them stand spaces, tabs and line ends, and nothing else counts as blank here.

An escape with four hexadecimal digits names a unit of sixteen bits.  A high and a
low surrogate in a row make one character.  Strings are therefore read in two steps.
First come their pieces, which are characters and units, and then the text that the
pieces stand for, if they stand for one.
-/

namespace Metrology.Json

/-- A lexeme. -/
inductive Lexeme where
  /-- An opening square bracket. -/
  | openArray
  /-- A closing square bracket. -/
  | closeArray
  /-- An opening brace. -/
  | openObject
  /-- A closing brace. -/
  | closeObject
  /-- A colon. -/
  | colon
  /-- A comma. -/
  | comma
  /-- A document without parts. -/
  | scalar (value : Document)
deriving Repr

/-! ## Strings -/

/-- A piece of a string. -/
inductive Piece where
  /-- A character. -/
  | char (c : Char)
  /-- A unit of sixteen bits, from an escape. -/
  | unit (u : Nat)
deriving DecidableEq, Repr

/-- The value of a hexadecimal digit of either case. -/
def hexDigit? (c : Char) : Option Nat :=
  if c.isDigit then some (c.toNat - '0'.toNat)
  else if 'a' ≤ c ∧ c ≤ 'f' then some (c.toNat - 'a'.toNat + 10)
  else if 'A' ≤ c ∧ c ≤ 'F' then some (c.toNat - 'A'.toNat + 10)
  else none

/-- The unit that four hexadecimal digits name. -/
def unitOfHex? (a b c d : Char) : Option Nat := do
  return (((← hexDigit? a) * 16 + (← hexDigit? b)) * 16 + (← hexDigit? c)) * 16 + (← hexDigit? d)

/-- The character that an escape of one letter names. -/
def escaped? : Char → Option Char
  | '"' => some '"'
  | '\\' => some '\\'
  | '/' => some '/'
  | 'b' => some '\x08'
  | 'f' => some '\x0c'
  | 'n' => some '\n'
  | 'r' => some '\r'
  | 't' => some '\t'
  | _ => none

/-- Reads the pieces of a string up to its closing quote. -/
def takePieces : List Char → Option (List Piece × List Char)
  | [] => none
  | '"' :: cs => some ([], cs)
  | '\\' :: 'u' :: a :: b :: c :: d :: cs => do
    let u ← unitOfHex? a b c d
    let (pieces, rest) ← takePieces cs
    return (.unit u :: pieces, rest)
  | '\\' :: e :: cs => do
    let c ← escaped? e
    let (pieces, rest) ← takePieces cs
    return (.char c :: pieces, rest)
  | c :: cs =>
    if c.toNat < 0x20 then none
    else do
      let (pieces, rest) ← takePieces cs
      return (.char c :: pieces, rest)

/-- Whether a unit is the first half of a character. -/
def isHighSurrogate (u : Nat) : Bool := 0xD800 ≤ u && u < 0xDC00

/-- Whether a unit is the second half of a character. -/
def isLowSurrogate (u : Nat) : Bool := 0xDC00 ≤ u && u < 0xE000

/-- The character of two halves. -/
def ofSurrogates (high low : Nat) : Char :=
  Char.ofNat (0x10000 + (high - 0xD800) * 0x400 + (low - 0xDC00))

/-- The characters that pieces stand for. -/
def charsOfPieces? : List Piece → Option (List Char)
  | [] => some []
  | .char c :: pieces => (charsOfPieces? pieces).map (c :: ·)
  | .unit u :: pieces =>
    if isHighSurrogate u then
      match pieces with
      | .unit v :: pieces =>
        if isLowSurrogate v then (charsOfPieces? pieces).map (ofSurrogates u v :: ·) else none
      | _ => none
    else if isLowSurrogate u then none
    else (charsOfPieces? pieces).map (Char.ofNat u :: ·)

/-! ## Numbers -/

/-- Reads the digits behind the point, if there is a point. -/
def takeFraction : List Char → Option (Option (List Char) × List Char)
  | '.' :: cs =>
    let (ds, rest) := Text.spanDigits cs
    if ds.isEmpty then none else some (some ds, rest)
  | cs => some (none, cs)

/-- Reads the exponent, if there is a mark for it. -/
def takeExponent : List Char → Option (Option Int × List Char)
  | [] => some (none, [])
  | c :: cs =>
    if c = 'e' ∨ c = 'E' then
      let (negative, cs) := Text.takeSign cs
      let (ds, rest) := Text.spanDigits cs
      (Decimal.readExponentDigits negative ds).map fun e => (some e, rest)
    else some (none, c :: cs)

/-- Whether digits can stand before the point: one at least, and a zero only alone. -/
def isWholePart : List Char → Bool
  | [] => false
  | [_] => true
  | d :: _ => d != '0'

/-- Reads a number behind its sign. -/
def takeNumber (negative : Bool) (cs : List Char) : Option (Number × List Char) :=
  let (whole, cs) := Text.spanDigits cs
  if isWholePart whole then do
    let (fraction, cs) ← takeFraction cs
    let (exponent, cs) ← takeExponent cs
    return (⟨negative, whole, fraction, exponent⟩, cs)
  else none

/-! ## Texts -/

/-- Whether a character may stand between lexemes. -/
def isSpace (c : Char) : Bool := c == ' ' || c == '\t' || c == '\n' || c == '\r'

/-- Reads the lexeme at the front of a text. -/
def takeLexeme : List Char → Option (Lexeme × List Char)
  | '[' :: cs => some (.openArray, cs)
  | ']' :: cs => some (.closeArray, cs)
  | '{' :: cs => some (.openObject, cs)
  | '}' :: cs => some (.closeObject, cs)
  | ':' :: cs => some (.colon, cs)
  | ',' :: cs => some (.comma, cs)
  | 'n' :: 'u' :: 'l' :: 'l' :: cs => some (.scalar .null, cs)
  | 't' :: 'r' :: 'u' :: 'e' :: cs => some (.scalar (.boolean true), cs)
  | 'f' :: 'a' :: 'l' :: 's' :: 'e' :: cs => some (.scalar (.boolean false), cs)
  | '"' :: cs => (takePieces cs).map fun (pieces, rest) =>
    (.scalar (.string ((charsOfPieces? pieces).map String.ofList)), rest)
  | '-' :: cs => (takeNumber true cs).map fun (n, rest) => (.scalar (.number n), rest)
  | cs => (takeNumber false cs).map fun (n, rest) => (.scalar (.number n), rest)

/-! ## Every lexeme takes a character -/

theorem length_of_takePieces {cs rest : List Char} {pieces : List Piece}
    (h : takePieces cs = some (pieces, rest)) : rest.length < cs.length := by
  fun_induction takePieces cs generalizing pieces rest with
  | case1 => simp at h
  | case2 cs => simp at h; simp [h.2]
  | case3 a b c d cs ih =>
    simp only [Option.bind_eq_bind, Option.bind_eq_some_iff, Option.pure_def] at h
    obtain ⟨u, -, ⟨ps, r⟩, hr, heq⟩ := h
    simp only [Option.some.injEq, Prod.mk.injEq] at heq
    have := ih hr
    simp only [List.length_cons, ← heq.2]
    omega
  | case4 e cs _ ih =>
    simp only [Option.bind_eq_bind, Option.bind_eq_some_iff, Option.pure_def] at h
    obtain ⟨c, -, ⟨ps, r⟩, hr, heq⟩ := h
    simp only [Option.some.injEq, Prod.mk.injEq] at heq
    have := ih hr
    simp only [List.length_cons, ← heq.2]
    omega
  | case5 => simp at h
  | case6 c cs _ _ _ _ ih =>
    simp only [Option.bind_eq_bind, Option.bind_eq_some_iff, Option.pure_def] at h
    obtain ⟨⟨ps, r⟩, hr, heq⟩ := h
    simp only [Option.some.injEq, Prod.mk.injEq] at heq
    have := ih hr
    simp only [List.length_cons, ← heq.2]
    omega

theorem length_of_takeFraction {cs rest : List Char} {ds : Option (List Char)}
    (h : takeFraction cs = some (ds, rest)) : rest.length ≤ cs.length := by
  unfold takeFraction at h
  split at h
  next cs =>
    have := Text.length_spanDigits cs
    simp only [Option.ite_none_left_eq_some, Option.some.injEq, Prod.mk.injEq] at h
    simp only [List.length_cons, ← h.2.2]
    omega
  next => simp_all

theorem length_of_takeExponent {cs rest : List Char} {e : Option Int}
    (h : takeExponent cs = some (e, rest)) : rest.length ≤ cs.length := by
  unfold takeExponent at h
  split at h
  next => simp_all
  next c cs =>
    split at h
    next =>
      have digits := Text.length_spanDigits (Text.takeSign cs).2
      have sign := Text.length_takeSign cs
      simp only [Option.map_eq_some_iff, Prod.mk.injEq] at h
      obtain ⟨_, _, _, rfl⟩ := h
      simp only [List.length_cons]
      omega
    next => simp_all

theorem length_of_takeNumber {negative : Bool} {cs rest : List Char} {n : Number}
    (h : takeNumber negative cs = some (n, rest)) : rest.length < cs.length := by
  have digits := Text.length_spanDigits cs
  simp only [takeNumber, Option.ite_none_right_eq_some, Option.bind_eq_bind,
    Option.bind_eq_some_iff, Option.pure_def, Option.some.injEq, Prod.mk.injEq] at h
  obtain ⟨whole, ⟨_, afterFraction⟩, hf, ⟨_, afterExponent⟩, he, _, rfl⟩ := h
  have fraction := length_of_takeFraction hf
  have exponent := length_of_takeExponent he
  have : 0 < (Text.spanDigits cs).1.length := by
    cases hw : (Text.spanDigits cs).1 with
    | nil => simp [hw, isWholePart] at whole
    | cons => simp
  simp only at fraction exponent ⊢
  omega

theorem length_of_takeLexeme {cs rest : List Char} {l : Lexeme}
    (h : takeLexeme cs = some (l, rest)) : rest.length < cs.length := by
  unfold takeLexeme at h
  split at h
  case h_10 cs =>
    simp only [Option.map_eq_some_iff, Prod.mk.injEq] at h
    obtain ⟨⟨_, r⟩, hr, _, rfl⟩ := h
    have := length_of_takePieces hr
    simp only [List.length_cons]
    omega
  case h_11 cs =>
    simp only [Option.map_eq_some_iff, Prod.mk.injEq] at h
    obtain ⟨⟨_, r⟩, hr, _, rfl⟩ := h
    have := length_of_takeNumber hr
    simp only [List.length_cons]
    omega
  case h_12 =>
    simp only [Option.map_eq_some_iff, Prod.mk.injEq] at h
    obtain ⟨⟨_, r⟩, hr, _, rfl⟩ := h
    exact length_of_takeNumber hr
  all_goals
    simp only [Option.some.injEq, Prod.mk.injEq] at h
    simp only [← h.2, List.length_cons]
    omega

/-- The lexemes of a text. -/
def lexemes? (cs : List Char) : Option (List Lexeme) :=
  match skipped : cs.dropWhile isSpace with
  | [] => some []
  | c :: cs' =>
    match taken : takeLexeme (c :: cs') with
    | none => none
    | some (l, rest) =>
      have : rest.length < cs.length :=
        Nat.lt_of_lt_of_le (length_of_takeLexeme taken)
          (skipped ▸ (List.dropWhile_suffix isSpace).length_le)
      (lexemes? rest).map (l :: ·)
termination_by cs.length

end Metrology.Json
