import Metrology.Proofs.Calendar.Fields
import Metrology.Proofs.Calendar.WallClock
import Metrology.Proofs.Text.Blank

/-!
# The three readers of instants

Every reader begins with a date, and on the same text all of them read the same one.  The
reader of dates wants the text to end there, and the other two want a time.  The reader of
local date-times wants the text to end behind the time, and the reader of offset date-times
wants an offset.  So no two of them take the same text (`length_filterMap_readers_le`), and
the order in which they are tried makes no difference.  And every text that one of them
takes starts with a year and a hyphen (`startsWithYear_of_readInstant`).

A text of fixed fields is left to one reader by what stands behind its date and its time.
The three give one answer for one wall clock, and an offset only moves it.
-/

namespace Metrology.Calendar

open Text

/-- The readers of instants, in the order in which they are tried. -/
def readers : List (List Char → Option Instant) := [readOffsetDateTime, readLocalDateTime, readDate]

/-- The instant of a text is that of the first reader that takes it. -/
theorem readInstant_eq_findSome? (cs : List Char) :
    readInstant cs = readers.findSome? fun read => read (trim cs) := by
  simp only [readInstant, readers, List.findSome?_cons, List.findSome?_nil]
  cases readOffsetDateTime (trim cs) with
  | some i => rfl
  | none =>
      cases readLocalDateTime (trim cs) with
      | some i => rfl
      | none => cases readDate (trim cs) <;> rfl

/-! ## What the readers take -/

section

variable {cs : List Char} {i : Instant}

theorem exists_of_readOffsetDateTime (h : readOffsetDateTime cs = some i) :
    ∃ date r time clock offset, takeFixedDate cs = some (date, r) ∧
      takeSeparator r = some time ∧ ∃ r', takeFixedTime date time = some (clock, r') ∧
        takeOffset r' = some (offset, []) ∧ clock.instant? offset = some i := by
  rw [readOffsetDateTime_eq] at h
  simp only [Option.bind_eq_bind, Option.bind_eq_some_iff] at h
  obtain ⟨⟨date, r⟩, first, time, separator, ⟨clock, r'⟩, second, ⟨offset, rest⟩, last, w, done,
    instant⟩ := h
  cases rest with
  | nil =>
      cases done
      exact ⟨date, r, time, clock, offset, first, separator, r', second, last, instant⟩
  | cons c rest => cases done

theorem exists_of_readLocalDateTime (h : readLocalDateTime cs = some i) :
    ∃ date time clock, takeDate cs = some (date, 'T' :: time) ∧
      takeLocalTime date time = some (clock, []) ∧ clock.instant? 0 = some i := by
  rw [readLocalDateTime_eq] at h
  simp only [Option.bind_eq_bind, Option.bind_eq_some_iff] at h
  obtain ⟨⟨date, r⟩, first, time, mark, ⟨clock, rest⟩, second, w, done, instant⟩ := h
  cases takeChar_eq_some_iff.mp mark
  cases rest with
  | nil =>
      cases done
      exact ⟨date, time, clock, first, second, instant⟩
  | cons c rest => cases done

/-- Every reader begins with a date. -/
theorem exists_takeDate_of_mem_readers {read : List Char → Option Instant} (mem : read ∈ readers)
    (h : read cs = some i) : ∃ p, takeDate cs = some p := by
  simp only [readers, List.mem_cons, List.not_mem_nil, or_false] at mem
  rcases mem with rfl | rfl | rfl
  · obtain ⟨_, _, _, _, _, first, -⟩ := exists_of_readOffsetDateTime h
    exact ⟨_, takeDate_of_takeFixedDate first⟩
  · obtain ⟨_, _, _, first, -⟩ := exists_of_readLocalDateTime h
    exact ⟨_, first⟩
  · obtain ⟨p, first, -⟩ := Option.bind_eq_some_iff.mp h
    exact ⟨p, first⟩

/-- So every text that an instant is read from starts with a year. -/
theorem startsWithYear_of_readInstant (h : readInstant cs = some i) :
    StartsWithYear (trim cs) := by
  rw [readInstant_eq_findSome?] at h
  obtain ⟨read, mem, taken⟩ := List.exists_of_findSome?_eq_some h
  obtain ⟨p, first⟩ := exists_takeDate_of_mem_readers mem taken
  exact startsWithYear_of_takeDate (trimStart_trim cs) first

/-! ## No text is taken twice -/

/-- A text with a time is no date. -/
theorem readDate_of_readLocalDateTime (h : readLocalDateTime cs = some i) :
    readDate cs = none := by
  obtain ⟨date, time, _, first, -⟩ := exists_of_readLocalDateTime h
  rw [readDate_of_takeDate first]
  rfl

theorem readDate_of_readOffsetDateTime (h : readOffsetDateTime cs = some i) :
    readDate cs = none := by
  obtain ⟨date, r, time, _, _, first, separator, -⟩ := exists_of_readOffsetDateTime h
  rw [readDate_of_takeDate (takeDate_of_takeFixedDate first)]
  cases r with
  | nil => cases separator
  | cons c r => rfl

/-- Both readers read the same time, and then one wants an offset and the other the end. -/
theorem readLocalDateTime_of_readOffsetDateTime (h : readOffsetDateTime cs = some i) :
    readLocalDateTime cs = none := by
  obtain ⟨date, r, time, clock, offset, first, separator, rest, second, last, -⟩ :=
    exists_of_readOffsetDateTime h
  cases both : readLocalDateTime cs with
  | none => rfl
  | some j =>
      obtain ⟨date', time', clock', first', second', -⟩ := exists_of_readLocalDateTime both
      rw [takeDate_of_takeFixedDate first] at first'
      cases first'
      rw [takeSeparator_mark] at separator
      cases separator
      rw [takeLocalTime_of_takeFixedTime second] at second'
      cases second'
      cases last

end

/-- At most one reader takes a text. -/
theorem length_filterMap_readers_le (cs : List Char) :
    (readers.filterMap fun read => read cs).length ≤ 1 := by
  simp only [readers, List.filterMap_cons, List.filterMap_nil]
  cases first : readOffsetDateTime cs with
  | some i =>
      rw [readLocalDateTime_of_readOffsetDateTime first, readDate_of_readOffsetDateTime first]
      exact Nat.le_refl 1
  | none =>
      cases second : readLocalDateTime cs with
      | some i =>
          rw [readDate_of_readLocalDateTime second]
          exact Nat.le_refl 1
      | none =>
          cases readDate cs with
          | some i => exact Nat.le_refl 1
          | none => exact Nat.zero_le 1

/-- Where at most one succeeds, the order of trials makes no difference. -/
theorem findSome?_eq_of_perm {α β : Type} {f : α → Option β} {order order' : List α}
    (perm : order.Perm order') (single : (order'.filterMap f).length ≤ 1) :
    order.findSome? f = order'.findSome? f := by
  have results := perm.filterMap f
  rw [← List.head?_filterMap, ← List.head?_filterMap]
  cases found : order'.filterMap f with
  | nil =>
      rw [found] at results
      rw [results.eq_nil]
  | cons b rest =>
      rw [found, List.length_cons] at single
      have alone : rest = [] := List.eq_nil_of_length_eq_zero (by omega)
      rw [found, alone] at results
      rw [results.eq_singleton, alone]

/-- The readers may be tried in any order. -/
theorem readInstant_eq_findSome?_of_perm {order : List (List Char → Option Instant)}
    (perm : order.Perm readers) (cs : List Char) :
    readInstant cs = order.findSome? fun read => read (trim cs) := by
  rw [readInstant_eq_findSome?]
  exact (findSome?_eq_of_perm perm (length_filterMap_readers_le (trim cs))).symm

/-! ## Texts of fixed fields -/

theorem FixedDate.noBlank_chars (d : FixedDate) : NoBlank d.chars := by
  have dash : isBlank '-' = false := rfl
  simp only [chars, noBlank_append, noBlank_cons, d.year.allDigits.noBlank,
    d.month.allDigits.noBlank, d.day.allDigits.noBlank, dash, and_self]

theorem FixedTime.noBlank_chars (t : FixedTime) : NoBlank t.chars := by
  have colon : isBlank ':' = false := rfl
  have fraction : NoBlank (fractionText t.fraction) := by
    rw [fractionText]
    split
    · exact noBlank_nil
    · exact noBlank_cons.mpr ⟨rfl, t.allDigits_fraction.noBlank⟩
  simp only [chars, noBlank_append, noBlank_cons, t.hour.allDigits.noBlank,
    t.minute.allDigits.noBlank, t.second.allDigits.noBlank, colon, fraction, and_self]

/-- The text of a date and a time. -/
def dateTimeText (d : FixedDate) (t : FixedTime) : List Char := d.chars ++ 'T' :: t.chars

theorem noBlank_dateTimeText (d : FixedDate) (t : FixedTime) : NoBlank (dateTimeText d t) := by
  have mark : isBlank 'T' = false := rfl
  exact noBlank_append.mpr ⟨d.noBlank_chars, noBlank_cons.mpr ⟨mark, t.noBlank_chars⟩⟩

theorem readInstant_of_noBlank {cs : List Char} (h : NoBlank cs) :
    readInstant cs = (readOffsetDateTime cs <|> readLocalDateTime cs <|> readDate cs) := by
  rw [readInstant, trim_of_noBlank h]

/-- A date is left to the reader of dates. -/
theorem readInstant_date (d : FixedDate) :
    readInstant d.chars = (WallClock.mk d.date 0 0 0 0).instant? 0 := by
  have fixed := takeFixedDate_chars d []
  have date := takeDate_chars d []
  rw [List.append_nil] at fixed date
  have offset : readOffsetDateTime d.chars = none := by
    rw [readOffsetDateTime_eq]
    exact bind_of_eq_some fixed _
  have isLocal : readLocalDateTime d.chars = none := by
    rw [readLocalDateTime_eq]
    exact bind_of_eq_some date _
  rw [readInstant_of_noBlank d.noBlank_chars, offset, isLocal, readDate_of_takeDate date]
  rfl

section

variable (d : FixedDate) (t : FixedTime)

/-- The reader of dates does not take a time behind the date. -/
theorem readDate_dateTimeText (r : List Char) : readDate (dateTimeText d t ++ r) = none := by
  rw [dateTimeText, List.append_assoc, readDate_of_takeDate (takeDate_chars d _)]
  rfl

theorem readLocalDateTime_dateTimeText {r : List Char} (hr : EndsTime r) :
    readLocalDateTime (dateTimeText d t ++ r) =
      (atEnd (t.clock d.date) r).bind (·.instant? 0) := by
  rw [dateTimeText, List.append_assoc]
  exact readLocalDateTime_of_takeDate (takeDate_chars d _) hr

theorem readOffsetDateTime_dateTimeText {r : List Char} (hr : EndsTime r) :
    readOffsetDateTime (dateTimeText d t ++ r) =
      (takeOffset r).bind fun p => (atEnd (t.clock d.date) p.2).bind (·.instant? p.1) := by
  rw [dateTimeText, List.append_assoc]
  exact readOffsetDateTime_of_takeFixedDate (takeFixedDate_chars d _) hr

/-- A date and a time without an offset are left to the reader of local date-times. -/
theorem readInstant_dateTimeText :
    readInstant (dateTimeText d t) = (t.clock d.date).instant? 0 := by
  have offset := readOffsetDateTime_dateTimeText d t endsTime_nil
  have isLocal := readLocalDateTime_dateTimeText d t endsTime_nil
  have date := readDate_dateTimeText d t []
  rw [List.append_nil] at offset isLocal date
  rw [readInstant_of_noBlank (noBlank_dateTimeText d t), offset, isLocal, date]
  exact orElse_failure (m := Option) _

/-- With an offset they are left to the reader of offset date-times. -/
theorem readInstant_dateTimeText_append {r : List Char} {offset : Int}
    (h : takeOffset r = some (offset, [])) (plain : NoBlank r) (hr : EndsTime r) :
    readInstant (dateTimeText d t ++ r) = (t.clock d.date).instant? offset := by
  have rest : r ≠ [] := by
    rintro rfl
    cases h
  have isLocal : readLocalDateTime (dateTimeText d t ++ r) = none := by
    rw [readLocalDateTime_dateTimeText d t hr, atEnd, if_neg (by simpa using rest)]
    rfl
  rw [readInstant_of_noBlank (noBlank_append.mpr ⟨noBlank_dateTimeText d t, plain⟩),
    readOffsetDateTime_dateTimeText d t hr, isLocal, readDate_dateTimeText, h]
  exact orElse_failure (m := Option) _

theorem readInstant_dateTimeText_mark :
    readInstant (dateTimeText d t ++ ['Z']) = readInstant (dateTimeText d t) := by
  have plain : NoBlank ['Z'] := noBlank_cons.mpr ⟨rfl, noBlank_nil⟩
  rw [readInstant_dateTimeText_append d t rfl plain endsTime_mark, readInstant_dateTimeText]

end

/-- The time at the start of a day. -/
def midnight : FixedTime := ⟨.zeros 2, .zeros 2, .zeros 2, [], allDigits_zeros 0⟩

theorem chars_midnight : midnight.chars = "00:00:00".toList := rfl

/-- A date is the midnight at its start. -/
theorem readInstant_dateTimeText_midnight (d : FixedDate) :
    readInstant (dateTimeText d midnight) = readInstant d.chars := by
  rw [readInstant_dateTimeText, readInstant_date]
  rfl

/-! ## Offsets -/

/-- The signs of an offset, and whether a clock is ahead of universal time or behind it. -/
def offsetSigns : List (Char × Int) := [('+', 1), ('-', -1), ('\u2212', -1)]

/-- The text of an offset. -/
def offsetText (sign : Char) (hours minutes : Run 2) : List Char :=
  sign :: hours.chars ++ ':' :: minutes.chars

section

variable {sign : Char} {direction : Int} {hours minutes : Run 2}

theorem takeOffsetFields_chars (hh : hours.value ≤ 23) (hm : minutes.value ≤ 59) :
    takeOffsetFields (hours.chars ++ ':' :: minutes.chars) =
      some ((hours.value * 3600 + minutes.value * 60 : Int), []) := by
  have last := takeDigits_run (Nat.le_refl 2) minutes []
  rw [List.append_nil] at last
  refine (bind_of_eq_some (takeDigits_run (Nat.le_refl 2) hours _) _).trans ?_
  refine (bind_of_eq_some (takeChar_cons ':' _) _).trans ?_
  refine (bind_of_eq_some last _).trans ?_
  exact bind_of_eq_some (if_pos ⟨hh, hm⟩) _

/-- An offset is taken as its seconds, in the direction of its sign. -/
theorem takeOffset_offsetText (mem : (sign, direction) ∈ offsetSigns)
    (hh : hours.value ≤ 23) (hm : minutes.value ≤ 59) :
    takeOffset (offsetText sign hours minutes) =
      some (direction * (hours.value * 3600 + minutes.value * 60), []) := by
  have fields := takeOffsetFields_chars hh hm
  simp only [offsetSigns, List.mem_cons, List.not_mem_nil, or_false, Prod.mk.injEq] at mem
  rcases mem with ⟨rfl, rfl⟩ | ⟨rfl, rfl⟩ | ⟨rfl, rfl⟩
  · rw [Int.one_mul]
    exact fields
  · rw [Int.neg_one_mul]
    exact congrArg (Option.map fun p => (-p.1, p.2)) fields
  · rw [Int.neg_one_mul]
    exact congrArg (Option.map fun p => (-p.1, p.2)) fields

variable (hours minutes) in
theorem offsetText_plain (mem : (sign, direction) ∈ offsetSigns) :
    NoBlank (offsetText sign hours minutes) ∧ EndsTime (offsetText sign hours minutes) := by
  have signs : ∀ p ∈ offsetSigns, isBlank p.1 = false ∧ p.1.isDigit = false ∧ p.1 ≠ '.' := by
    decide
  obtain ⟨blank, digit, point⟩ := signs _ mem
  have colon : isBlank ':' = false := rfl
  refine ⟨?_, endsTime_cons digit point _⟩
  simp only [offsetText, List.cons_append, noBlank_append, noBlank_cons,
    hours.allDigits.noBlank, minutes.allDigits.noBlank, blank, colon, and_self]

/-- An offset moves the instant that the text without it is read as. -/
theorem readInstant_offsetText (d : FixedDate) (t : FixedTime)
    (mem : (sign, direction) ∈ offsetSigns) (hh : hours.value ≤ 23) (hm : minutes.value ≤ 59) :
    (readInstant (dateTimeText d t ++ offsetText sign hours minutes)).map
        (fun i => (i.seconds, i.nanos)) =
      (readInstant (dateTimeText d t)).map fun i =>
        (i.seconds - direction * (hours.value * 3600 + minutes.value * 60), i.nanos) := by
  have units : ∀ p ∈ offsetSigns, p.2 = 1 ∨ p.2 = -1 := by decide
  have unit : direction = 1 ∨ direction = -1 := units _ mem
  obtain ⟨plain, ends⟩ := offsetText_plain hours minutes mem
  have year : 0 ≤ (d.year.value : Int) ∧ (d.year.value : Int) ≤ 9999 := by
    have bound := d.year.value_lt
    omega
  rw [readInstant_dateTimeText_append d t (takeOffset_offsetText mem hh hm) plain ends,
    readInstant_dateTimeText]
  refine WallClock.instant?_offset year ?_ ?_
  · rcases unit with rfl | rfl <;> omega
  · rcases unit with rfl | rfl <;> omega

end

end Metrology.Calendar
