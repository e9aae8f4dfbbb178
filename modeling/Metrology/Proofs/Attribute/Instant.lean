import Metrology.Proofs.Attribute.RoundTrip
import Metrology.Proofs.Calendar.Readers

/-!
# Attributes read as instants

Three readers are asked for the instant of a text, one after the other.  No text is taken
by two of them, and so it makes no difference who is asked first.

Each has a grammar of its own, and still they agree on what a date and a time mean.
Without an offset the time is universal, and a `Z` says the same.  An offset moves the
instant and keeps its nanoseconds, those of a leap second included.  A date alone is the
midnight at its start.  All this holds of every text of that shape, whether or not there
is such a day and such a time.
-/

namespace Metrology.Attribute

open Calendar Text

/-! ## The order of the readers -/

/-- At most one reader takes the text of an attribute, and so any order of them leads to
the same instant. -/
theorem asInstant?_in_any_order (s : String) :
    (readers.filterMap fun read => read (trim s.toList)).length ≤ 1 ∧
      ∀ order : List (List Char → Option Instant), order.Perm readers →
        ∀ a : Attribute, a.text = some s →
          a.asInstant? = order.findSome? fun read => read (trim s.toList) := by
  refine ⟨length_filterMap_readers_le _, fun order perm a text => ?_⟩
  rw [asInstant?_of_text text]
  exact readInstant_eq_findSome?_of_perm perm s.toList

/-- A date may be given to the reader of dates first. -/
theorem asInstant?_dates_first :
    (readers.reverse.findSome? fun read => read (trim "2016-12-31".toList)) =
      some ⟨1483142400, 0, by decide⟩ := by
  have backwards := (asInstant?_in_any_order "2016-12-31").2 readers.reverse
    (List.reverse_perm readers) (ofText Key.time "2016-12-31") rfl
  rw [← backwards]
  decide

/-! ## Agreement of the readers -/

/-- The instant of the attribute of a text. -/
def instantOf (key : Key) (cs : List Char) : Option Instant :=
  (ofText key (String.ofList cs)).asInstant?

theorem instantOf_eq (key : Key) (cs : List Char) : instantOf key cs = readInstant cs := by
  rw [instantOf, asInstant?_of_text rfl, Value.readInstant, String.toList_ofList]

/-- A date and a time are the same instant with a `Z` and without.  An offset moves the
instant, if there is one, and keeps its nanoseconds.  A date is the midnight at its start,
and blanks around a text make no difference. -/
theorem instantOf_agree (key : Key) :
    (∀ (d : FixedDate) (t : FixedTime),
      instantOf key (dateTimeText d t ++ ['Z']) = instantOf key (dateTimeText d t)) ∧
    (∀ (d : FixedDate) (t : FixedTime) sign direction, (sign, direction) ∈ offsetSigns →
      ∀ hours minutes : Run 2, hours.value ≤ 23 → minutes.value ≤ 59 →
        (instantOf key (dateTimeText d t ++ offsetText sign hours minutes)).map
            (fun i => (i.seconds, i.nanos)) =
          (instantOf key (dateTimeText d t)).map fun i =>
            (i.seconds - direction * (hours.value * 3600 + minutes.value * 60), i.nanos)) ∧
    (∀ d : FixedDate, instantOf key d.chars = instantOf key (d.chars ++ "T00:00:00".toList)) ∧
    ∀ before after, AllBlank before → AllBlank after →
      ∀ cs, instantOf key (before ++ cs ++ after) = instantOf key cs := by
  simp only [instantOf_eq]
  refine ⟨readInstant_dateTimeText_mark, ?_, ?_, ?_⟩
  · intro d t sign direction mem hours minutes hh hm
    exact readInstant_offsetText d t mem hh hm
  · intro d
    rw [← readInstant_dateTimeText_midnight, dateTimeText, chars_midnight]
    rfl
  · intro before after hb ha cs
    rw [readInstant, trim_append_of_allBlank hb ha, readInstant]

/-- A clock ahead by an hour and a half shows the leap second at the end of 2016 on the
first day of 2017.  A wide blank stands in front, and a line break behind. -/
theorem instantOf_agree_leapSecond :
    (instantOf Key.time "\u20032017-01-01T01:29:60.5+01:30\n".toList).map
      (fun i => (i.seconds, i.nanos)) = some (1483228799, 1500000000) := by
  let one : Run 2 := ⟨"01".toList, by decide, rfl⟩
  let half : Run 2 := ⟨"30".toList, by decide, rfl⟩
  let day : FixedDate := ⟨⟨"2017".toList, by decide, rfl⟩, one, one⟩
  let clock : FixedTime :=
    ⟨one, ⟨"29".toList, by decide, rfl⟩, ⟨"60".toList, by decide, rfl⟩, ['5'], by decide⟩
  obtain ⟨-, moved, -, blank⟩ := instantOf_agree Key.time
  have text : "\u20032017-01-01T01:29:60.5+01:30\n".toList =
      ['\u2003'] ++ (dateTimeText day clock ++ offsetText '+' one half) ++ ['\n'] := by decide
  rw [text, blank _ _ (by decide) (by decide),
    moved day clock '+' 1 (by decide) one half (by decide) (by decide)]
  decide

end Metrology.Attribute
