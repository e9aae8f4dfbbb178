import Metrology.Item.Measurement
import Metrology.Proofs.Attribute.RoundTrip
import Metrology.Proofs.Item.AttributeList

/-!
# The time of a measurement

The time is stored as an instant of universal time and read from its text.  What is shown
of it comes back to the tick if its year has four digits.  With any other year the text has a sign
in front and no reader takes it, so the measurement has no time after it was set.

The attribute takes the place of the first one of its key, or else the last place, and
all others stay where they are.
-/

namespace Metrology.Measurement

open Calendar (Instant Timestamp)

theorem time?_setTime (m : Measurement) (t : Instant) :
    (m.setTime (some t)).time? = Calendar.readInstant (Timestamp.utc t).write := by
  have found : (m.setTime (some t)).attributes.find? Key.time =
      some (.ofValue Key.time (.timestamp (.utc t))) :=
    (AttributeList.find?_set m.attributes _ Key.time).trans (if_pos rfl)
  rw [time?, found, Option.bind_some, Attribute.asInstant?_of_text rfl, Value.readInstant,
    String.toList_ofList]

/-- What setting the time does.  The time is found again for the years of four digits, and
for these only, and no other attribute is changed or moved. -/
theorem setTime_some (m : Measurement) (t : Instant) :
    let year := t.wallClock.date.year
    let kept := if 0 ≤ year ∧ year ≤ 9999 then some t.shown.toTick else none
    let stored := Attribute.ofValue Key.time (.timestamp (.utc t))
    ((m.setTime (some t)).time? = kept ∧
      (m.setTime (some t)).timeOrEarliest = kept.getD earliestTime ∧
      (m.setTime (some t)).timeOrCreation = kept.getD m.created) ∧
    ((m.attributes.find? Key.time = none ∧
        (m.setTime (some t)).attributes.toList = m.attributes.toList ++ [stored]) ∨
      ∃ before old after, m.attributes.toList = before ++ old :: after ∧ old.key = Key.time ∧
        (∀ b ∈ before, b.key ≠ Key.time) ∧
        (m.setTime (some t)).attributes.toList = before ++ stored :: after) := by
  intro year kept stored
  have time : (m.setTime (some t)).time? = kept := by
    rw [time?_setTime]
    by_cases plain : 0 ≤ year ∧ year ≤ 9999
    · rw [Calendar.readInstant_write_utc plain]
      exact (if_pos plain).symm
    · rw [Calendar.readInstant_write_utc_of_signed plain]
      exact (if_neg plain).symm
  refine ⟨⟨time, congrArg (·.getD earliestTime) time, congrArg (·.getD m.created) time⟩, ?_⟩
  exact AttributeList.toList_set m.attributes stored

/-- The first second of the year 10000 is not found again. -/
theorem time?_setTime_yearTenThousand :
    ((new "" "" earliestTime).setTime (some ⟨253402300800, 0, by decide⟩)).time? = none := by
  rw [time?_setTime]
  exact Calendar.readInstant_write_utc_of_signed (by decide)

end Metrology.Measurement
