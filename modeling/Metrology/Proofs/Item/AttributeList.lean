import Metrology.Item.Operation

/-!
# Finding, setting and removing attributes

What an attribute list holds under a key, and in which order its keys stand, after an
attribute was set or removed.

Setting leaves the keys where they are, and a new key goes last.  It decides what is
found under its own key and under no other, even if keys repeat.  Removing takes out
one attribute only.  So nothing is left under its key if there was one of that key at
most (`find?_remove`).
-/

namespace Metrology.AttributeList

/-- The keys of the attributes, in order. -/
def keys (as : AttributeList) : List Key := as.toList.map Attribute.key

theorem find?_eq_none_iff {as : AttributeList} {key : Key} :
    as.find? key = none ↔ key ∉ as.keys := by
  simp only [find?, keys, List.find?_eq_none, decide_eq_true_eq, List.mem_map, not_exists, not_and]

/-! ## Setting -/

theorem map_key_replaceFirst (a : Attribute) (bs : List Attribute) :
    (replaceFirst a bs).map Attribute.key =
      if a.key ∈ bs.map Attribute.key then bs.map Attribute.key
      else bs.map Attribute.key ++ [a.key] := by
  induction bs with
  | nil => rfl
  | cons b bs ih =>
      rw [replaceFirst]
      split
      next same => simp [same]
      next other =>
        rw [List.map_cons, ih, List.map_cons]
        have first : a.key ≠ b.key := Ne.symm other
        simp only [List.mem_cons, first, false_or]
        split
        · rfl
        · rfl

/-- Setting an attribute adds its key at the end, unless it is there. -/
theorem keys_set (as : AttributeList) (a : Attribute) :
    (as.set a).keys = if a.key ∈ as.keys then as.keys else as.keys ++ [a.key] :=
  map_key_replaceFirst a as.toList

theorem find?_replaceFirst (a : Attribute) (key : Key) (bs : List Attribute) :
    (replaceFirst a bs).find? (fun b => b.key = key) =
      if a.key = key then some a else bs.find? fun b => b.key = key := by
  induction bs with
  | nil => simp [replaceFirst]
  | cons b bs ih =>
      rw [replaceFirst]
      split
      next same =>
        rw [List.find?_cons, List.find?_cons, same]
        by_cases h : a.key = key
        · simp [h]
        · simp [h]
      next other =>
        rw [List.find?_cons, List.find?_cons, ih]
        by_cases h : b.key = key
        · have first : a.key ≠ key := fun eq => other (h.trans eq.symm)
          simp [h, first]
        · simp [h]

/-- What was set is found, and all else as before. -/
theorem find?_set (as : AttributeList) (a : Attribute) (key : Key) :
    (as.set a).find? key = if a.key = key then some a else as.find? key :=
  find?_replaceFirst a key as.toList

/-- Either the key is new, or the first attribute with it is replaced where it stands. -/
theorem toList_set (as : AttributeList) (a : Attribute) :
    (as.find? a.key = none ∧ (as.set a).toList = as.toList ++ [a]) ∨
      ∃ before old after, as.toList = before ++ old :: after ∧ old.key = a.key ∧
        (∀ b ∈ before, b.key ≠ a.key) ∧ (as.set a).toList = before ++ a :: after := by
  obtain ⟨bs⟩ := as
  simp only [find?, set]
  induction bs with
  | nil => exact .inl ⟨rfl, rfl⟩
  | cons b bs ih =>
      by_cases h : b.key = a.key
      · refine .inr ⟨[], b, bs, rfl, h, fun c mem => absurd mem List.not_mem_nil, ?_⟩
        rw [replaceFirst, if_pos h]
        rfl
      · rw [replaceFirst, if_neg h]
        rcases ih with ⟨fresh, last⟩ | ⟨before, old, after, parts, key, first, result⟩
        · refine .inl ⟨?_, congrArg (b :: ·) last⟩
          rw [List.find?_cons_of_neg (by simpa using h), fresh]
        · refine .inr ⟨b :: before, old, after, congrArg (b :: ·) parts, key, ?_,
            congrArg (b :: ·) result⟩
          intro c mem
          cases mem with
          | head => exact h
          | tail _ mem => exact first c mem

/-! ## Removing -/

theorem takeFirst_eq (key : Key) (bs : List Attribute) :
    takeFirst key bs =
      (bs.find? fun b => b.key = key).map fun a => (a, bs.eraseP fun b => b.key = key) := by
  induction bs with
  | nil => rfl
  | cons b bs ih =>
      rw [takeFirst]
      split
      next same => simp [same]
      next other =>
        rw [ih, List.find?_cons_of_neg (by simpa using other),
          List.eraseP_cons_of_neg (by simpa using other), Option.map_map]
        rfl

/-- Removing a key removes the first attribute with it. -/
theorem toList_remove (as : AttributeList) (key : Key) :
    (as.remove key).toList = as.toList.eraseP fun b => b.key = key := by
  rw [remove, take?, takeFirst_eq]
  cases found : as.toList.find? fun b => b.key = key with
  | some a => rfl
  | none =>
      rw [List.find?_eq_none] at found
      exact (List.eraseP_of_forall_not found).symm

/-- What is taken out is what is found, and the list is left without it. -/
theorem take?_eq (as : AttributeList) (key : Key) :
    as.take? key = (as.find? key).map fun a => (a, as.remove key) := by
  have rest : as.remove key = ⟨as.toList.eraseP fun b => b.key = key⟩ :=
    congrArg AttributeList.mk (as.toList_remove key)
  rw [take?, takeFirst_eq, Option.map_map, rest]
  rfl

/-- Removing answers with what was found before. -/
theorem perform_remove (as : AttributeList) (key : Key) :
    as.perform (.remove key) = (.found (as.find? key), as.remove key) := by
  rw [perform, as.take?_eq]
  cases found : as.find? key with
  | some a => rfl
  | none =>
      rw [remove, as.take?_eq, found]
      rfl

/-- Removing a key removes its first occurrence. -/
theorem keys_remove (as : AttributeList) (key : Key) :
    (as.remove key).keys = as.keys.erase key := by
  rw [keys, toList_remove, keys, List.erase_eq_eraseP', List.eraseP_map]
  rfl

theorem find?_eraseP {key other : Key} (h : other ≠ key) (bs : List Attribute) :
    (bs.eraseP fun b => b.key = key).find? (fun b => b.key = other) =
      bs.find? fun b => b.key = other := by
  induction bs with
  | nil => rfl
  | cons b bs ih =>
      by_cases same : b.key = key
      · have skip : b.key ≠ other := fun eq => h (eq.symm.trans same)
        rw [List.eraseP_cons_of_pos (by simpa using same),
          List.find?_cons_of_neg (by simpa using skip)]
      · rw [List.eraseP_cons_of_neg (by simpa using same), List.find?_cons, List.find?_cons, ih]

/-- Where no key repeats, nothing is left under the key that was removed. -/
theorem find?_remove {as : AttributeList} (distinct : as.keys.Nodup) (key other : Key) :
    (as.remove key).find? other = if key = other then none else as.find? other := by
  split
  next same =>
    rw [find?_eq_none_iff, keys_remove, ← same]
    exact distinct.not_mem_erase
  next apart =>
    rw [find?, toList_remove]
    exact find?_eraseP (Ne.symm apart) as.toList

end Metrology.AttributeList
