import Mathlib.Data.List.DropRight
import Metrology.Text.Blank

/-!
# Trimming

Blanks around a text are lost in trimming, however many there are and of whatever kind.
What is left has no blank in front.
-/

namespace Metrology.Text

/-- Blanks and nothing else. -/
def AllBlank (cs : List Char) : Prop := ∀ c ∈ cs, isBlank c

instance : DecidablePred AllBlank := fun cs =>
  decidable_of_iff (cs.all isBlank) List.all_eq_true

theorem trimStart_append_of_allBlank {bs : List Char} (h : AllBlank bs) (cs : List Char) :
    trimStart (bs ++ cs) = trimStart cs := List.dropWhile_append_of_pos h

theorem trimEnd_append_of_allBlank (cs : List Char) {bs : List Char} (h : AllBlank bs) :
    trimEnd (cs ++ bs) = trimEnd cs := by
  have reversed : ∀ c ∈ bs.reverse, isBlank c := by
    intro c mem
    exact h c (List.mem_reverse.mp mem)
  rw [trimEnd, trimEnd, List.reverse_append, List.dropWhile_append_of_pos reversed]

/-- Blanks on either side make no difference. -/
theorem trim_append_of_allBlank {before after : List Char} (hb : AllBlank before)
    (ha : AllBlank after) (cs : List Char) : trim (before ++ cs ++ after) = trim cs := by
  rw [List.append_assoc, trim, trimStart_append_of_allBlank hb, trim, trimStart,
    List.dropWhile_append]
  split
  next blank =>
    -- There is nothing but blanks, so none of them ends up in front of a text.
    have none : after.dropWhile isBlank = [] := List.dropWhile_eq_nil_iff.mpr ha
    rw [none, trimStart, List.isEmpty_iff.mp blank]
  next =>
    exact trimEnd_append_of_allBlank _ ha

/-- What is trimmed has no blank in front. -/
theorem trimStart_trim (cs : List Char) : trimStart (trim cs) = trim cs := by
  obtain ⟨tail, whole⟩ : trim cs <+: trimStart cs := List.rdropWhile_prefix isBlank _
  cases text : trim cs with
  | nil => rfl
  | cons c rest =>
      have front := List.head?_dropWhile_not isBlank cs
      rw [text, List.cons_append] at whole
      rw [← trimStart, ← whole] at front
      exact List.dropWhile_cons_of_neg (Bool.eq_false_iff.mp front)

end Metrology.Text
