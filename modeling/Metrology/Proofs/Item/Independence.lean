import Metrology.Item.Operation
import Metrology.Proofs.Item.AttributeList

/-!
# Keys do not interfere

The attributes of one key, in order, are a list of their own (`ofKey`).  An operation
on this key does to it what it does to the whole list, and answers the same.  An
operation on another key leaves it alone.  Keys may repeat, and then only the first
attribute of a key is replaced or taken out, which is also the first one of the list
of this key.

So a run of operations falls apart into one run for each key (`performAll_ofKey`).
Clearing the list belongs to all of them.  Two runs in which the operations on each key
come in the same order leave the same attributes under each key and give the same
answers, however the keys are mixed.
-/

namespace Metrology

/-! ## Operations on a key -/

namespace Operation

/-- The key that an operation is about.  Clearing is about none in particular. -/
def key? : Operation → Option Key
  | set a | push a => some a.key
  | setText key _ | remove key | find key | textOf key => some key
  | clear => none

/-- Whether an operation is about the attributes of a key. -/
def concerns (operation : Operation) (key : Key) : Bool := operation.key?.all (· = key)

end Operation

namespace AttributeList

/-- The attributes of one key. -/
def ofKey (as : AttributeList) (key : Key) : AttributeList :=
  ⟨as.toList.filter fun a => a.key = key⟩

/-- The operations of a run, each with its answer. -/
def log (as : AttributeList) (operations : List Operation) : List (Operation × Answer) :=
  operations.zip (as.performAll operations).1

/-! ## The attributes of one key -/

/-- The first attribute with a key is the first one of those with it. -/
theorem find?_ofKey (as : AttributeList) (key : Key) : (as.ofKey key).find? key = as.find? key := by
  simp only [find?, ofKey, List.find?_filter, Bool.decide_and, Bool.decide_eq_true, Bool.and_self]

theorem filter_replaceFirst_own (a : Attribute) (bs : List Attribute) :
    (replaceFirst a bs).filter (fun b => b.key = a.key) =
      replaceFirst a (bs.filter fun b => b.key = a.key) := by
  induction bs with
  | nil => simp [replaceFirst]
  | cons b bs ih =>
      rw [replaceFirst]
      split
      next same => simp [replaceFirst, same]
      next apart => simp [apart, ih]

theorem filter_replaceFirst_other {a : Attribute} {key : Key} (h : a.key ≠ key)
    (bs : List Attribute) :
    (replaceFirst a bs).filter (fun b => b.key = key) = bs.filter fun b => b.key = key := by
  induction bs with
  | nil => simp [replaceFirst, h]
  | cons b bs ih =>
      rw [replaceFirst]
      split
      next same => simp [same, h]
      next apart => rw [List.filter_cons, List.filter_cons, ih]

/-- Setting an attribute sets it among those with its key, and leaves the others alone. -/
theorem ofKey_set (as : AttributeList) (a : Attribute) (key : Key) :
    (as.set a).ofKey key = if a.key = key then (as.ofKey key).set a else as.ofKey key := by
  split
  next own =>
    subst own
    exact congrArg AttributeList.mk (filter_replaceFirst_own a as.toList)
  next other => exact congrArg AttributeList.mk (filter_replaceFirst_other other as.toList)

theorem filter_eraseP_other {key other : Key} (h : other ≠ key) (bs : List Attribute) :
    (bs.eraseP fun b => b.key = other).filter (fun b => b.key = key) =
      bs.filter fun b => b.key = key := by
  induction bs with
  | nil => rfl
  | cons b bs ih =>
      by_cases same : b.key = other
      · have skip : b.key ≠ key := same ▸ h
        rw [List.eraseP_cons_of_pos (by simpa using same), List.filter_cons,
          if_neg (by simpa using skip)]
      · rw [List.eraseP_cons_of_neg (by simpa using same), List.filter_cons, List.filter_cons, ih]

/-- Removing a key does so among the attributes with it, and leaves the others alone. -/
theorem ofKey_remove (as : AttributeList) (other key : Key) :
    (as.remove other).ofKey key =
      if other = key then (as.ofKey key).remove other else as.ofKey key := by
  split
  next own =>
    subst own
    refine AttributeList.ext ?_
    rw [toList_remove, ofKey, ofKey, toList_remove, List.eraseP_filter]
    simp
  next apart =>
    refine AttributeList.ext ?_
    rw [ofKey, toList_remove]
    exact filter_eraseP_other apart as.toList

theorem ofKey_setText (as : AttributeList) (other key : Key) (text : Option String) :
    (as.setText other text).ofKey key =
      if other = key then (as.ofKey key).setText other text else as.ofKey key := by
  cases text with
  | none => exact as.ofKey_remove other key
  | some text => exact as.ofKey_set (.ofText other text) key

/-- Pushing an attribute does so among those with its key, and leaves the others alone. -/
theorem ofKey_push (as : AttributeList) (a : Attribute) (key : Key) :
    (as.push a).ofKey key = if a.key = key then (as.ofKey key).push a else as.ofKey key := by
  simp only [push, ofKey, List.filter_append]
  split
  next own => simp [own]
  next other => simp [other]

/-! ## One operation -/

/-- An operation does to the attributes of its key what it does to the list. -/
theorem perform_ofKey (as : AttributeList) {key : Key} {operation : Operation}
    (h : operation.concerns key) :
    (as.ofKey key).perform operation =
      ((as.perform operation).1, (as.perform operation).2.ofKey key) := by
  cases operation with
  | set a =>
      have own : a.key = key := of_decide_eq_true h
      rw [perform, perform, as.ofKey_set, if_pos own]
  | setText other text =>
      have own : other = key := of_decide_eq_true h
      rw [perform, perform, as.ofKey_setText, if_pos own]
  | remove other =>
      have own : other = key := of_decide_eq_true h
      rw [perform_remove, perform_remove, as.ofKey_remove, if_pos own, own, as.find?_ofKey]
  | find other =>
      have own : other = key := of_decide_eq_true h
      rw [perform, perform, own, as.find?_ofKey]
  | textOf other =>
      have own : other = key := of_decide_eq_true h
      rw [perform, perform, textOf?, textOf?, own, as.find?_ofKey]
  | push a =>
      have own : a.key = key := of_decide_eq_true h
      rw [perform, perform, as.ofKey_push, if_pos own]
  | clear => rfl

/-- An operation leaves the attributes of other keys alone. -/
theorem ofKey_perform_of_not_concerns (as : AttributeList) {key : Key} {operation : Operation}
    (h : ¬ operation.concerns key) : (as.perform operation).2.ofKey key = as.ofKey key := by
  cases operation with
  | set a =>
      have other : a.key ≠ key := fun own => h (decide_eq_true own)
      rw [perform, as.ofKey_set, if_neg other]
  | setText other text =>
      have apart : other ≠ key := fun own => h (decide_eq_true own)
      rw [perform, as.ofKey_setText, if_neg apart]
  | remove other =>
      have apart : other ≠ key := fun own => h (decide_eq_true own)
      rw [perform_remove, as.ofKey_remove, if_neg apart]
  | find other => rfl
  | textOf other => rfl
  | push a =>
      have other : a.key ≠ key := fun own => h (decide_eq_true own)
      rw [perform, as.ofKey_push, if_neg other]
  | clear => exact absurd rfl h

/-! ## Runs -/

theorem performAll_cons (as : AttributeList) (operation : Operation)
    (operations : List Operation) :
    (as.performAll (operation :: operations)).2 =
      ((as.perform operation).2.performAll operations).2 := rfl

theorem log_cons (as : AttributeList) (operation : Operation) (operations : List Operation) :
    as.log (operation :: operations) =
      (operation, (as.perform operation).1) :: (as.perform operation).2.log operations := rfl

/-- Of a run, the attributes of a key see the operations on this key only. -/
theorem run_ofKey (as : AttributeList) (key : Key) (operations : List Operation) :
    ((as.ofKey key).performAll (operations.filter (·.concerns key))).2 =
        (as.performAll operations).2.ofKey key ∧
      (as.ofKey key).log (operations.filter (·.concerns key)) =
        (as.log operations).filter (·.1.concerns key) := by
  induction operations generalizing as with
  | nil => exact ⟨rfl, rfl⟩
  | cons operation operations ih =>
      obtain ⟨list, answers⟩ := ih (as.perform operation).2
      rw [performAll_cons, log_cons, List.filter_cons, List.filter_cons]
      split
      next own =>
        rw [performAll_cons, log_cons, as.perform_ofKey own]
        exact ⟨list, congrArg _ answers⟩
      next other =>
        rw [as.ofKey_perform_of_not_concerns other] at list answers
        exact ⟨list, answers⟩

/-- The attributes of a key, and what the operations on this key answer, are those of a
run of these operations alone.  So they are the same in every run with the same
operations on each key, in whatever order the keys take turns. -/
theorem performAll_ofKey (as : AttributeList) (operations : List Operation) :
    (∀ key,
      ((as.ofKey key).performAll (operations.filter (·.concerns key))).2 =
          (as.performAll operations).2.ofKey key ∧
        (as.ofKey key).log (operations.filter (·.concerns key)) =
          (as.log operations).filter (·.1.concerns key)) ∧
    ∀ others : List Operation,
      (∀ key, others.filter (·.concerns key) = operations.filter (·.concerns key)) →
      ∀ key, (as.performAll others).2.ofKey key = (as.performAll operations).2.ofKey key ∧
        (as.log others).filter (·.1.concerns key) =
          (as.log operations).filter (·.1.concerns key) := by
  refine ⟨fun key => as.run_ofKey key operations, ?_⟩
  intro others turns key
  obtain ⟨list, answers⟩ := as.run_ofKey key operations
  obtain ⟨list', answers'⟩ := as.run_ofKey key others
  rw [turns key] at list' answers'
  exact ⟨list'.symm.trans list, answers'.symm.trans answers⟩

/-- A part number that is there twice is taken out and set again.  It makes no difference
when the description is removed meanwhile. -/
theorem performAll_ofKey_part :
    let as : AttributeList := ⟨[.ofText Key.partNumber "P-1", .ofText Key.partDescription "Nut",
      .ofText Key.partNumber "P-2"]⟩
    let early : List Operation := [.remove Key.partDescription, .remove Key.partNumber,
      .setText Key.partNumber (some "P-3")]
    let late : List Operation := [.remove Key.partNumber, .setText Key.partNumber (some "P-3"),
      .remove Key.partDescription]
    (∀ key, late.filter (·.concerns key) = early.filter (·.concerns key)) ∧
      ∀ key, (as.performAll late).2.ofKey key = (as.performAll early).2.ofKey key ∧
        (as.log late).filter (·.1.concerns key) = (as.log early).filter (·.1.concerns key) := by
  intro as early late
  have turns : ∀ key, late.filter (·.concerns key) = early.filter (·.concerns key) := by
    intro key
    have remove (other : Key) : (Operation.remove other).concerns key = decide (other = key) := rfl
    have setText (other : Key) (text : Option String) :
        (Operation.setText other text).concerns key = decide (other = key) := rfl
    by_cases number : Key.partNumber = key
    · have description : Key.partDescription ≠ key := number ▸ by decide
      simp [early, late, remove, setText, number, description]
    · simp [early, late, List.filter_cons, remove, setText, number]
  exact ⟨turns, (as.performAll_ofKey early).2 late turns⟩

end AttributeList

end Metrology
