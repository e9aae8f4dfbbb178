import Metrology.Proofs.Decimal.Numeral
import Metrology.Proofs.Double.Rounding
import Metrology.Attribute.Value

/-!
# Texts of doubles

A double is read from one of three words or from a numeral, and from nothing else.  The
numeral is rounded once, from the exact number that it stands for
(`readDouble_language`).

The readers that machines come with know more words, in any case and after any sign.  Such
a reader may still do the work, if only digits and the marks of numerals are let through to
it: every other word has an `n`, and no numeral has one (`readGeneral_of_digitsAnd`).
-/

namespace Metrology

open Text

namespace Double

/-! ## Reading with more words -/

/-- A word for a double, in any case. -/
def readWord (negative : Bool) (cs : List Char) : Option Double :=
  let word := cs.map Char.toLower
  if word = "nan".toList then some (ofMagnitudeBits negative nan.magnitudeBits)
  else if word = "inf".toList ∨ word = "infinity".toList then some (infinity negative)
  else none

/-- Reads a numeral, or a word after a sign. -/
def readGeneral (cs : List Char) : Option Double :=
  match Decimal.read cs with
  | some d => some d.nearest
  | none => readWord (takeSign cs).1 (takeSign cs).2

/-- Reads a double from a text with blanks around it, and leaves the numerals to the more general
reader. -/
def readFiltered (cs : List Char) : Option Double :=
  let cs := trim cs
  if cs = "NaN".toList then some nan
  else if cs = "Infinity".toList then some (infinity false)
  else if cs = "-Infinity".toList then some (infinity true)
  else if cs.all fun c => c.isDigit || Decimal.numeralMarks.contains c then readGeneral cs
  else none

/-- Every word has a letter that no numeral has. -/
theorem mem_of_readWord {negative : Bool} {cs : List Char} {x : Double}
    (h : readWord negative cs = some x) : 'n' ∈ cs.map Char.toLower := by
  rw [readWord] at h
  split at h
  next word =>
    rw [word]
    decide
  next =>
    split at h
    next word =>
      rcases word with word | word
      · rw [word]
        decide
      · rw [word]
        decide
    next => cases h

/-- In lower case a digit is the same. -/
theorem toLower_of_isDigit {c : Char} (h : c.isDigit) : c.toLower = c := by
  have high : c.toNat ≤ '9'.toNat := (Char.isDigit_iff_toNat.mp h).2
  refine dif_neg fun upper => ?_
  have low : 'A'.toNat ≤ c.toNat := upper.1
  exact absurd (low.trans high) (by decide)

theorem toLower_ne {c : Char} (h : c.isDigit ∨ c ∈ Decimal.numeralMarks) : c.toLower ≠ 'n' := by
  have marks : Decimal.numeralMarks.all fun c => decide (c.toLower ≠ 'n') := by decide
  rcases h with digit | mark
  · rw [toLower_of_isDigit digit]
    rintro rfl
    cases digit
  · exact of_decide_eq_true (List.all_eq_true.mp marks c mark)

theorem takeSign_suffix (cs : List Char) : (takeSign cs).2 <:+ cs := by
  obtain ⟨sign, -, text⟩ := exists_sign cs
  exact ⟨sign.chars, text.symm⟩

/-- From digits and marks the more general reader reads numerals only. -/
theorem readGeneral_of_digitsAnd {cs : List Char} (h : DigitsAnd Decimal.numeralMarks cs) :
    readGeneral cs = (Decimal.read cs).map Decimal.nearest := by
  have noWord : readWord (takeSign cs).1 (takeSign cs).2 = none := by
    cases word : readWord (takeSign cs).1 (takeSign cs).2 with
    | none => rfl
    | some x =>
        obtain ⟨c, mem, letter⟩ := List.mem_map.mp (mem_of_readWord word)
        exact absurd letter (toLower_ne (h c ((takeSign_suffix cs).subset mem)))
  rw [readGeneral, noWord]
  cases Decimal.read cs with
  | none => rfl
  | some d => rfl

/-- A text with another character is no numeral. -/
theorem decimalRead_of_not_digitsAnd {cs : List Char} (h : ¬ DigitsAnd Decimal.numeralMarks cs) :
    Decimal.read cs = none := by
  cases read : Decimal.read cs with
  | none => rfl
  | some d =>
      obtain ⟨n, text, -⟩ := Decimal.exists_numeral_of_read read
      exact absurd (text ▸ n.digitsAnd_chars) h

/-- Reading is the same with the more general reader behind the filter. -/
theorem read_eq_readFiltered (cs : List Char) : read cs = readFiltered cs := by
  have filter {ds : List Char} : (ds.all fun c => c.isDigit || Decimal.numeralMarks.contains c) ↔
      DigitsAnd Decimal.numeralMarks ds := by
    simp only [List.all_eq_true, Bool.or_eq_true, List.contains_iff_mem, DigitsAnd]
  simp only [read, readFiltered, nanWord, infinityWord, Bool.false_eq_true, if_false, if_true]
  split
  next => rfl
  next =>
    split
    next => rfl
    next =>
      split
      next => rfl
      next =>
        split
        next pass => rw [readGeneral_of_digitsAnd (filter.mp pass)]
        next stop =>
          rw [decimalRead_of_not_digitsAnd (mt filter.mpr stop)]
          rfl

/-! ## The language -/

/-- A text stands for a double. -/
inductive Denotes : List Char → Double → Prop
  /-- One word stands for what is not a number. -/
  | nan : Denotes "NaN".toList Double.nan
  /-- One word stands for infinity. -/
  | infinity : Denotes "Infinity".toList (Double.infinity false)
  /-- One word stands for negative infinity. -/
  | negativeInfinity : Denotes "-Infinity".toList (Double.infinity true)
  /-- A numeral stands for the nearest double of its sign. -/
  | numeral (n : Decimal.Numeral) {x : Double} (sign : x.negative = n.sign.negative)
      (near : x.IsNearest n.size) : Denotes n.chars x

/-- A text that cannot be read as a decimal is that of no numeral. -/
theorem chars_ne_of_read {word : List Char} (h : Decimal.read word = none) (n : Decimal.Numeral) :
    n.chars ≠ word := by
  rintro rfl
  rw [Decimal.read_chars] at h
  cases h

theorem denotes_chars_iff {n : Decimal.Numeral} {x : Double} :
    Denotes n.chars x ↔ x.negative = n.sign.negative ∧ x.IsNearest n.size := by
  constructor
  · intro h
    generalize text : n.chars = cs at h
    cases h with
    | nan => exact absurd text (chars_ne_of_read rfl n)
    | infinity => exact absurd text (chars_ne_of_read rfl n)
    | negativeInfinity => exact absurd text (chars_ne_of_read rfl n)
    | numeral m sign near =>
        -- Two numerals of one text are read as one decimal.
        have same := Decimal.read_chars n
        rw [text, Decimal.read_chars, Option.some.injEq] at same
        have sizes := congrArg Decimal.size same
        rw [Decimal.size_decimal, Decimal.size_decimal] at sizes
        have signs : m.sign.negative = n.sign.negative := congrArg Decimal.negative same
        exact ⟨sign.trans signs, sizes ▸ near⟩
  · exact fun ⟨sign, near⟩ => .numeral n sign near

/-- What is read as a decimal stands for the nearest double. -/
theorem denotes_iff_of_read {cs : List Char} {d : Decimal} (h : Decimal.read cs = some d)
    {x : Double} : Denotes cs x ↔ d.nearest = x := by
  obtain ⟨n, rfl, rfl⟩ := Decimal.exists_numeral_of_read h
  rw [denotes_chars_iff, Decimal.nearest_eq_iff, Decimal.size_decimal]
  rfl

/-- The doubles are read that the text stands for. -/
theorem read_eq_some_iff {cs : List Char} {x : Double} :
    read cs = some x ↔ Denotes (trim cs) x := by
  constructor
  · intro h
    rw [read] at h
    split at h
    next word =>
      cases h
      exact word ▸ .nan
    next =>
      split at h
      next word =>
        cases h
        exact word ▸ .infinity
      next =>
        split at h
        next word =>
          cases h
          exact word ▸ .negativeInfinity
        next =>
          obtain ⟨d, back, nearest⟩ := Option.map_eq_some_iff.mp h
          exact (denotes_iff_of_read back).mpr nearest
  · intro h
    rw [read]
    generalize trim cs = text at h ⊢
    cases h with
    | nan => rfl
    | infinity => rfl
    | negativeInfinity => rfl
    | numeral n sign near =>
        have back := Decimal.read_chars n
        have nearest := (denotes_iff_of_read back).mp (.numeral n sign near)
        rw [if_neg (chars_ne_of_read rfl n), if_neg (chars_ne_of_read rfl n),
          if_neg (chars_ne_of_read rfl n), back, Option.map_some, nearest]

/-- There are three words, and all other texts of doubles are numerals. -/
theorem exists_denotes_iff {cs : List Char} : (∃ x, Denotes cs x) ↔
    cs = "NaN".toList ∨ cs = "Infinity".toList ∨ cs = "-Infinity".toList ∨
      ∃ n : Decimal.Numeral, cs = n.chars := by
  constructor
  · rintro ⟨x, h⟩
    cases h with
    | nan => exact .inl rfl
    | infinity => exact .inr (.inl rfl)
    | negativeInfinity => exact .inr (.inr (.inl rfl))
    | numeral n _ _ => exact .inr (.inr (.inr ⟨n, rfl⟩))
  · rintro (rfl | rfl | rfl | ⟨n, rfl⟩)
    · exact ⟨_, .nan⟩
    · exact ⟨_, .infinity⟩
    · exact ⟨_, .negativeInfinity⟩
    · exact ⟨_, (denotes_iff_of_read (Decimal.read_chars n)).mpr rfl⟩

namespace Denotes

variable {cs : List Char} {x : Double}

/-- No other text stands for what is not a number. -/
theorem isNaN_iff (h : Denotes cs x) : x.isNaN ↔ cs = "NaN".toList := by
  cases h with
  | nan => decide
  | infinity => decide
  | negativeInfinity => decide
  | numeral n sign near =>
      rw [near.number]
      exact iff_of_false Bool.false_ne_true (chars_ne_of_read rfl n)

/-- A numeral overflows to the infinity of its sign. -/
theorem eq_infinity_iff {n : Decimal.Numeral} (h : Denotes n.chars x) :
    x = Double.infinity n.sign.negative ↔ overflowSize ≤ n.size := by
  obtain ⟨sign, near⟩ := denotes_chars_iff.mp h
  rw [← near.isInfinite_iff, ← sign]
  constructor
  · intro same
    rw [same]
    exact beq_iff_eq.mpr (magnitudeBits_infinity _)
  · exact eq_infinity

end Denotes

end Double

/-- A double is read exactly from the texts that stand for one, which are three words and the
numerals.  Only one of the words stands for what is not a number, and a numeral is infinite from
halfway between the largest double and infinity on.  A reader of more words, behind a filter,
reads the same. -/
theorem readDouble_language (s : String) :
    (∀ x, Value.readDouble s = some x ↔ Double.Denotes (trim s.toList) x) ∧
    ((Value.readDouble s).isSome ↔
      trim s.toList = "NaN".toList ∨ trim s.toList = "Infinity".toList ∨
        trim s.toList = "-Infinity".toList ∨ ∃ n : Decimal.Numeral, trim s.toList = n.chars) ∧
    (∀ x, Value.readDouble s = some x → (x.isNaN ↔ trim s.toList = "NaN".toList)) ∧
    (∀ n : Decimal.Numeral, trim s.toList = n.chars → ∃ x, Value.readDouble s = some x ∧
      x.negative = n.sign.negative ∧ x.IsNearest n.size ∧
        (x = Double.infinity n.sign.negative ↔ Double.overflowSize ≤ n.size)) ∧
    Value.readDouble s = Double.readFiltered s.toList := by
  have language {x : Double} : Value.readDouble s = some x ↔ Double.Denotes (trim s.toList) x :=
    Double.read_eq_some_iff
  refine ⟨fun x => language, ?_, ?_, ?_, Double.read_eq_readFiltered s.toList⟩
  · rw [Option.isSome_iff_exists, ← Double.exists_denotes_iff]
    exact exists_congr fun x => language
  · exact fun x read => (language.mp read).isNaN_iff
  · intro n text
    have denotes := (Double.denotes_iff_of_read (Decimal.read_chars n)).mpr rfl
    obtain ⟨sign, near⟩ := Double.denotes_chars_iff.mp denotes
    exact ⟨n.decimal.nearest, language.mpr (text ▸ denotes), sign, near, denotes.eq_infinity_iff⟩

/-- A word in another case, or after another sign, is none. -/
example : Value.readDouble "nan" = none ∧ Value.readDouble "+Infinity" = none := by decide

end Metrology
