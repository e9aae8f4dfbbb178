import Mathlib.Algebra.Group.Nat.Defs
import Mathlib.Data.List.TakeWhile
import Metrology.Text.Blank
import Metrology.Text.Integer

/-!
# Runs of digits within a text

What the readers of digits do on a text that starts with a run of digits.  A run
ends where the rest has no digit (`NoDigitAhead`).  A run of fixed width (`Run`) ends
by itself, and a field that is no wider takes it whatever follows.

The value of a run does not change with zeros in front, and zeros at its end are
powers of ten.

What is written for a number or a time has digits and a few marks between them
(`DigitsAnd`), and so no blank and no other letter.
-/

namespace Metrology.Text

/-- Digits and nothing else. -/
def AllDigits (ds : List Char) : Prop := ∀ c ∈ ds, c.isDigit

instance : DecidablePred AllDigits := fun ds =>
  decidable_of_iff (ds.all Char.isDigit) List.all_eq_true

/-- A text that does not go on with a digit. -/
def NoDigitAhead (cs : List Char) : Prop := ∀ c ∈ cs.head?, c.isDigit = false

theorem noDigitAhead_nil : NoDigitAhead [] := by
  intro c mem
  cases mem

theorem noDigitAhead_cons {c : Char} (h : c.isDigit = false) (cs : List Char) :
    NoDigitAhead (c :: cs) := by
  intro d mem
  cases mem
  exact h

theorem allDigits_append {ds es : List Char} :
    AllDigits (ds ++ es) ↔ AllDigits ds ∧ AllDigits es := by
  simp only [AllDigits, List.mem_append, or_imp, forall_and]

theorem allDigits_cons {c : Char} {cs : List Char} :
    AllDigits (c :: cs) ↔ c.isDigit ∧ AllDigits cs := by
  simp only [AllDigits, List.mem_cons, forall_eq_or_imp]

/-- A number is written in digits. -/
theorem allDigits_digits (n : Nat) : AllDigits (digits n) := fun _ mem =>
  Nat.isDigit_of_mem_toDigits (by decide) (by decide) mem

theorem allDigits_zeros (n : Nat) : AllDigits (List.replicate n '0') := by
  intro c mem
  rw [List.eq_of_mem_replicate mem]
  decide

/-- Zeros in front are digits too. -/
theorem allDigits_paddedDigits (width n : Nat) : AllDigits (paddedDigits width n) :=
  allDigits_append.mpr ⟨allDigits_zeros _, allDigits_digits n⟩

/-! ## Digits and marks -/

/-- Digits and the given marks, and nothing else. -/
def DigitsAnd (marks cs : List Char) : Prop := ∀ c ∈ cs, c.isDigit ∨ c ∈ marks

theorem digitsAnd_nil (marks : List Char) : DigitsAnd marks [] := by
  intro c mem
  cases mem

theorem digitsAnd_append {marks cs ds : List Char} :
    DigitsAnd marks (cs ++ ds) ↔ DigitsAnd marks cs ∧ DigitsAnd marks ds := by
  simp only [DigitsAnd, List.mem_append, or_imp, forall_and]

theorem digitsAnd_cons {marks cs : List Char} {c : Char} :
    DigitsAnd marks (c :: cs) ↔ (c.isDigit ∨ c ∈ marks) ∧ DigitsAnd marks cs := by
  simp only [DigitsAnd, List.mem_cons, forall_eq_or_imp]

/-- Digits are digits whatever the marks are. -/
theorem AllDigits.digitsAnd {ds : List Char} (h : AllDigits ds) (marks : List Char) :
    DigitsAnd marks ds := fun c mem => .inl (h c mem)

/-- A character that is neither a digit nor a mark does not occur. -/
theorem DigitsAnd.not_mem {marks cs : List Char} (h : DigitsAnd marks cs) {c : Char}
    (digit : c.isDigit = false) (mark : c ∉ marks) : c ∉ cs := by
  intro mem
  cases h c mem with
  | inl isDigit =>
      rw [digit] at isDigit
      cases isDigit
  | inr isMark => exact mark isMark

/-! ## Values -/

/-- Zeros in front do not count. -/
theorem valueOf_zeros_append (n : Nat) (ds : List Char) :
    valueOf (List.replicate n '0' ++ ds) = valueOf ds := by
  rw [valueOf, Nat.ofDigitChars_append, Nat.ofDigitChars_replicate_zero, Nat.mul_zero]
  rfl

/-- Zeros at the end are a power of ten. -/
theorem valueOf_append_zeros (ds : List Char) (n : Nat) :
    valueOf (ds ++ List.replicate n '0') = valueOf ds * 10 ^ n := by
  rw [valueOf, Nat.ofDigitChars_append, Nat.ofDigitChars_replicate_zero, Nat.mul_comm]
  rfl

/-- Digits behind a number make it grow by no more than their places allow. -/
theorem ofDigitChars_lt {ds : List Char} (h : AllDigits ds) (acc : Nat) :
    Nat.ofDigitChars 10 ds acc < (acc + 1) * 10 ^ ds.length := by
  induction ds generalizing acc with
  | nil => simp
  | cons d ds ih =>
      obtain ⟨digit, digits⟩ := allDigits_cons.mp h
      have high : d.toNat ≤ '9'.toNat := (Char.isDigit_iff_toNat.mp digit).2
      have value : '9'.toNat - '0'.toNat = 9 := rfl
      rw [Nat.ofDigitChars_cons, List.length_cons, Nat.pow_succ]
      calc Nat.ofDigitChars 10 ds (10 * acc + (d.toNat - '0'.toNat))
          < (10 * acc + (d.toNat - '0'.toNat) + 1) * 10 ^ ds.length := ih digits _
        _ ≤ (acc + 1) * 10 * 10 ^ ds.length := Nat.mul_le_mul_right _ (by omega)
        _ = (acc + 1) * (10 ^ ds.length * 10) := by
          rw [Nat.mul_assoc, Nat.mul_comm 10]

/-- A run of digits stays below the power of ten of its length. -/
theorem valueOf_lt {ds : List Char} (h : AllDigits ds) : valueOf ds < 10 ^ ds.length := by
  have bound := ofDigitChars_lt h 0
  rwa [Nat.zero_add, Nat.one_mul] at bound

/-- A number that is written with zeros in front is read as itself. -/
theorem valueOf_paddedDigits (width n : Nat) : valueOf (paddedDigits width n) = n :=
  (valueOf_zeros_append _ _).trans (valueOf_digits n)

/-- The power of ten that a number lies below bounds the number of its digits. -/
theorem length_digits_le_iff {n width : Nat} (pos : 0 < width) :
    (digits n).length ≤ width ↔ n < 10 ^ width := Nat.length_toDigits_le_iff (by decide) pos

theorem lt_length_digits_iff {n width : Nat} (pos : 0 < width) :
    width < (digits n).length ↔ 10 ^ width ≤ n := by
  rw [← Nat.not_le, length_digits_le_iff pos, Nat.not_lt]

/-- A number that fits a width is written in that width. -/
theorem length_paddedDigits {width n : Nat} (pos : 0 < width) (h : n < 10 ^ width) :
    (paddedDigits width n).length = width := by
  have le : (digits n).length ≤ width := (length_digits_le_iff pos).mpr h
  rw [paddedDigits, List.length_leftpad]
  omega

/-- Zeros fill the width, also where the number does not fit. -/
theorem le_length_paddedDigits (width n : Nat) : width ≤ (paddedDigits width n).length := by
  rw [paddedDigits, List.length_leftpad]
  exact Nat.le_max_left _ _

theorem paddedDigits_ne_nil {width : Nat} (pos : 0 < width) (n : Nat) :
    paddedDigits width n ≠ [] := by
  intro nil
  have least := le_length_paddedDigits width n
  rw [nil] at least
  exact Nat.not_lt.mpr least pos

/-- A number with a zero at its end has that zero as its last digit. -/
theorem digits_mul_ten {n : Nat} (pos : 0 < n) : digits (n * 10) = digits n ++ ['0'] := by
  have last := Nat.toDigits_append_toDigits (b := 10) (d := 0) (by decide) pos (by decide)
  rw [Nat.add_zero, Nat.mul_comm] at last
  exact last.symm

/-- A power of ten as a factor puts zeros at the end. -/
theorem digits_mul_pow {n : Nat} (pos : 0 < n) (k : Nat) :
    digits (n * 10 ^ k) = digits n ++ List.replicate k '0' := by
  induction k with
  | zero => simp
  | succ k ih =>
      have pos' : 0 < n * 10 ^ k := Nat.mul_pos pos (Nat.pow_pos (by decide))
      rw [Nat.pow_succ, ← Nat.mul_assoc, digits_mul_ten pos', ih, List.replicate_succ',
        List.append_assoc]

/-! ## Integers -/

/-- Numbers with the same digits are the same. -/
theorem digits_inj {m n : Nat} (h : digits m = digits n) : m = n := by
  rw [← valueOf_digits m, h, valueOf_digits]

theorem minus_not_mem_digits (n : Nat) : '-' ∉ digits n :=
  fun mem => absurd (allDigits_digits n '-' mem) (by decide)

/-- The text of an integer is its identity. -/
theorem writeInteger_inj {m n : Int} (h : writeInteger m = writeInteger n) : m = n := by
  rw [writeInteger, writeInteger] at h
  split at h
  next minus =>
    split at h
    next minus' =>
      have abs : m.natAbs = n.natAbs := digits_inj (List.cons.inj h).2
      omega
    next plus' =>
      have mem : '-' ∈ digits n.natAbs := by rw [← h]; exact List.mem_cons_self
      exact absurd mem (minus_not_mem_digits n.natAbs)
  next plus =>
    split at h
    next minus' =>
      have mem : '-' ∈ digits m.natAbs := by rw [h]; exact List.mem_cons_self
      exact absurd mem (minus_not_mem_digits m.natAbs)
    next plus' =>
      have abs : m.natAbs = n.natAbs := digits_inj h
      omega

/-! ## Reading runs -/

/-- Digits end where the text does not go on with one. -/
theorem takeWhile_isDigit_append {ds r : List Char} (hds : AllDigits ds) (hr : NoDigitAhead r) :
    (ds ++ r).takeWhile Char.isDigit = ds := by
  rw [List.takeWhile_append_of_pos hds]
  cases r with
  | nil => simp
  | cons c r => simp [hr c rfl]

/-- A run of digits is taken as a whole, up to where it ends. -/
theorem spanDigits_append {ds r : List Char} (hds : AllDigits ds) (hr : NoDigitAhead r) :
    spanDigits (ds ++ r) = (ds, r) := by
  have rest : (ds ++ r).dropWhile Char.isDigit = r := by
    rw [List.dropWhile_append_of_pos hds]
    cases r with
    | nil => rfl
    | cons c r => simp [hr c rfl]
  rw [spanDigits, takeWhile_isDigit_append hds hr, rest]

/-- A field takes a run of digits that it has room for, if no digit follows. -/
theorem takeDigits_append {least most : Nat} {ds r : List Char} (hds : AllDigits ds)
    (hleast : least ≤ ds.length) (hmost : ds.length ≤ most)
    (hr : NoDigitAhead (r.take (most - ds.length))) :
    takeDigits least most (ds ++ r) = some (valueOf ds, r) := by
  have field : ((ds ++ r).take most).takeWhile Char.isDigit = ds := by
    rw [List.take_append, List.take_of_length_le hmost, takeWhile_isDigit_append hds hr]
  rw [takeDigits, field, if_pos hleast, List.drop_left]

/-- What a field takes are digits at the front of the text. -/
theorem exists_of_takeDigits {least most n : Nat} {cs r : List Char}
    (h : takeDigits least most cs = some (n, r)) :
    ∃ ds, cs = ds ++ r ∧ AllDigits ds ∧ least ≤ ds.length ∧ ds.length ≤ most ∧ valueOf ds = n := by
  have front := (List.takeWhile_prefix Char.isDigit).trans (List.take_prefix most cs)
  have digits : AllDigits ((cs.take most).takeWhile Char.isDigit) :=
    fun _ mem => List.mem_takeWhile_imp mem
  have bound := (List.takeWhile_prefix (l := cs.take most) Char.isDigit).length_le
  rw [takeDigits] at h
  generalize (cs.take most).takeWhile Char.isDigit = ds at front digits bound h
  by_cases enough : least ≤ ds.length
  · rw [if_pos enough] at h
    cases h
    have most' := Nat.le_trans bound (List.length_take_le most cs)
    exact ⟨ds, (List.prefix_iff_eq_append.mp front).symm, digits, enough, most', rfl⟩
  · rw [if_neg enough] at h
    cases h

theorem takeChar_cons (c : Char) (cs : List Char) : takeChar c (c :: cs) = some cs := if_pos rfl

/-- A character is taken exactly where it stands in front. -/
theorem takeChar_eq_some_iff {c : Char} {cs r : List Char} :
    takeChar c cs = some r ↔ cs = c :: r := by
  cases cs with
  | nil => simp only [takeChar, reduceCtorEq]
  | cons d cs =>
      rw [takeChar, List.cons.injEq]
      by_cases same : d = c
      · rw [if_pos same, Option.some.injEq, and_iff_right same]
      · rw [if_neg same]
        simp only [reduceCtorEq, same, false_and]

/-! ## Fields of a fixed width -/

/-- A run of digits of a fixed width. -/
structure Run (width : Nat) where
  /-- The digits. -/
  chars : List Char
  allDigits : AllDigits chars
  length_chars : chars.length = width

namespace Run

/-- The number that a run stands for. -/
def value {width : Nat} (ds : Run width) : Nat := valueOf ds.chars

/-- The run of a number with zeros in front. -/
def ofNat {width n : Nat} (pos : 0 < width) (h : n < 10 ^ width) : Run width :=
  ⟨paddedDigits width n, allDigits_paddedDigits width n, length_paddedDigits pos h⟩

/-- The run that has zeros only. -/
def zeros (width : Nat) : Run width :=
  ⟨List.replicate width '0', allDigits_zeros width, List.length_replicate⟩

theorem value_ofNat {width n : Nat} (pos : 0 < width) (h : n < 10 ^ width) :
    (ofNat pos h).value = n := valueOf_paddedDigits width n

/-- The value of a run stays below the power of ten of its width. -/
theorem value_lt {width : Nat} (ds : Run width) : ds.value < 10 ^ width := by
  have bound := valueOf_lt ds.allDigits
  rwa [ds.length_chars] at bound

theorem ne_nil {width : Nat} (pos : 0 < width) (ds : Run width) : ds.chars ≠ [] := by
  intro nil
  have length := ds.length_chars
  rw [nil] at length
  exact pos.ne length

end Run

/-- A field that may be no wider than a run takes the run and needs nothing of the rest. -/
theorem takeDigits_run {least width : Nat} (h : least ≤ width) (ds : Run width)
    (r : List Char) : takeDigits least width (ds.chars ++ r) = some (ds.value, r) := by
  have length := ds.length_chars
  refine takeDigits_append ds.allDigits (by omega) (Nat.le_of_eq length) ?_
  rw [length, Nat.sub_self, List.take_zero]
  exact noDigitAhead_nil

/-- What a field of fixed width takes is a run of that width. -/
theorem exists_run_of_takeDigits {width n : Nat} {cs r : List Char}
    (h : takeDigits width width cs = some (n, r)) :
    ∃ ds : Run width, cs = ds.chars ++ r ∧ ds.value = n := by
  obtain ⟨ds, text, digits, least, most, value⟩ := exists_of_takeDigits h
  exact ⟨⟨ds, digits, Nat.le_antisymm most least⟩, text, value⟩

/-! ## Where nothing is taken -/

/-- Where no digit stands there is no field. -/
theorem takeDigits_of_noDigitAhead {least : Nat} (pos : 0 < least) (most : Nat) {cs : List Char}
    (h : NoDigitAhead cs) : takeDigits least most cs = none := by
  have field : (cs.take most).takeWhile Char.isDigit = [] := by
    cases cs with
    | nil => simp
    | cons c cs =>
        cases most with
        | zero => rfl
        | succ most => simp [h c rfl]
  rw [takeDigits, field]
  exact if_neg (Nat.not_le.mpr pos)

/-- Where no sign stands there is nothing to take. -/
theorem takeSign_of_ne {c : Char} (plus : c ≠ '+') (minus : c ≠ '-') (cs : List Char) :
    takeSign (c :: cs) = (false, c :: cs) := by
  unfold takeSign
  split
  next eq =>
    cases eq
    exact absurd rfl plus
  next eq =>
    cases eq
    exact absurd rfl minus
  next => rfl

/-- A digit is no sign. -/
theorem takeSign_of_isDigit {c : Char} (h : c.isDigit) (cs : List Char) :
    takeSign (c :: cs) = (false, c :: cs) := by
  refine takeSign_of_ne ?_ ?_ cs
  · rintro rfl
    cases h
  · rintro rfl
    cases h

/-! ## Zeros at the end -/

/-- What is dropped at the end is that one character, some number of times. -/
theorem exists_append_dropTrailing (c : Char) (cs : List Char) :
    ∃ n, cs = dropTrailing c cs ++ List.replicate n c := by
  refine ⟨(cs.reverse.takeWhile (· = c)).length, ?_⟩
  have same : cs.reverse.takeWhile (· = c) =
      List.replicate (cs.reverse.takeWhile (· = c)).length c := by
    refine List.eq_replicate_iff.mpr ⟨rfl, fun d mem => ?_⟩
    simpa using List.mem_takeWhile_imp mem
  have parts := List.takeWhile_append_dropWhile (p := (· = c)) (l := cs.reverse)
  rw [same] at parts
  have whole := congrArg List.reverse parts
  rw [List.reverse_append, List.reverse_reverse, List.reverse_replicate] at whole
  exact whole.symm

theorem allDigits_dropTrailing (c : Char) {ds : List Char} (h : AllDigits ds) :
    AllDigits (dropTrailing c ds) := by
  obtain ⟨n, tail⟩ := exists_append_dropTrailing c ds
  rw [tail] at h
  exact (allDigits_append.mp h).1

/-! ## Texts without blanks -/

/-- No character is blank. -/
def NoBlank (cs : List Char) : Prop := ∀ c ∈ cs, isBlank c = false

theorem noBlank_nil : NoBlank [] := by
  intro c mem
  cases mem

theorem noBlank_append {cs ds : List Char} : NoBlank (cs ++ ds) ↔ NoBlank cs ∧ NoBlank ds := by
  simp only [NoBlank, List.mem_append, or_imp, forall_and]

theorem noBlank_cons {c : Char} {cs : List Char} :
    NoBlank (c :: cs) ↔ isBlank c = false ∧ NoBlank cs := by
  simp only [NoBlank, List.mem_cons, forall_eq_or_imp]

/-- Digits are not blank. -/
theorem AllDigits.noBlank {ds : List Char} (h : AllDigits ds) : NoBlank ds := by
  intro c mem
  exact isBlank_eq_false_of_isDigit (h c mem)

/-- Digits and marks are not blank unless a mark is. -/
theorem DigitsAnd.noBlank {marks cs : List Char} (h : DigitsAnd marks cs) (plain : NoBlank marks) :
    NoBlank cs := by
  intro c mem
  cases h c mem with
  | inl digit => exact isBlank_eq_false_of_isDigit digit
  | inr mark => exact plain c mark

theorem dropWhile_isBlank_of_noBlank {cs : List Char} (h : NoBlank cs) :
    cs.dropWhile isBlank = cs := by
  cases cs with
  | nil => rfl
  | cons c cs =>
      have keep : ¬ isBlank c = true := by simp [(noBlank_cons.mp h).1]
      exact List.dropWhile_cons_of_neg keep

/-- A text without blanks is its own trimmed text. -/
theorem trim_of_noBlank {cs : List Char} (h : NoBlank cs) : trim cs = cs := by
  have reversed : NoBlank cs.reverse := by
    intro c mem
    exact h c (List.mem_reverse.mp mem)
  rw [trim, trimStart, dropWhile_isBlank_of_noBlank h, trimEnd,
    dropWhile_isBlank_of_noBlank reversed, List.reverse_reverse]

end Metrology.Text
