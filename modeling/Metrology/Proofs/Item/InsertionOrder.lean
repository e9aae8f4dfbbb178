import Mathlib.Data.Nat.Find
import Metrology.Item.Change
import Metrology.Proofs.Item.AttributeList

/-!
# Records as maps in order of insertion

What a record holds can be told from the changes that were made to it, without looking
at the list of its attributes.

Under a key stands what the last change of that key stored (`lastStored`), and nothing if
that change removed it.  A key that is there went from absent to present once more than
it went back, and the last time it did so settles its place: the keys stand in the order
of those moments (`lastAbsent`).  Replacing an attribute is no such moment, and so a key
keeps its place, while a key that comes back after it was removed goes last.

Both facts are kept by every change (`InOrder.make`), and so by every run of changes
(`InOrder.makeAll`).
-/

namespace Metrology

open ItemKind (Item)

variable {kind : ItemKind}

/-! ## What a change says -/

namespace Change

/-- The key that a change is about. -/
def key : Change kind → Key
  | set a | withAttribute a => a.key
  | setText key _ | remove key => key
  | setTime _ => Key.time

/-- The attribute that stands under its key after a change. -/
def stored : Change kind → Option Attribute
  | set a | withAttribute a => some a
  | setText key text => text.map (Attribute.ofText key)
  | remove _ => none
  | setTime time => time.map fun i => Attribute.ofValue Key.time (.timestamp (.utc i))

theorem key_of_stored {c : Change kind} {a : Attribute} (h : c.stored = some a) :
    a.key = c.key := by
  cases c with
  | set b =>
      cases h
      rfl
  | setText key text =>
      cases text with
      | none => cases h
      | some text =>
          cases h
          rfl
  | remove key => cases h
  | setTime time =>
      cases time with
      | none => cases h
      | some i =>
          cases h
          rfl
  | withAttribute b =>
      cases h
      rfl

end Change

namespace AttributeList

/-- Stores an attribute under a key, or removes what is there. -/
def store (as : AttributeList) (key : Key) : Option Attribute → AttributeList
  | some a => as.set a
  | none => as.remove key

end AttributeList

namespace ItemKind.Item

theorem attributes_new (kind : ItemKind) (uuid about : String) (now : Calendar.Instant) :
    (new kind uuid about now).attributes = .empty := by
  cases kind with
  | measurement => rfl
  | planItem => rfl

theorem attributes_perform (i : kind.Item) (operation : Operation) :
    (i.perform operation).2.attributes = (i.attributes.perform operation).2 := by
  cases kind with
  | measurement => rfl
  | planItem => rfl

/-- Every change stores an attribute under its key or removes the one that is there. -/
theorem attributes_make (i : kind.Item) (c : Change kind) :
    (i.make c).2.attributes = i.attributes.store c.key c.stored := by
  cases c with
  | set a => exact i.attributes_perform (.set a)
  | setText key text =>
      refine (i.attributes_perform (.setText key text)).trans ?_
      cases text with
      | none => rfl
      | some text => rfl
  | remove key =>
      refine (i.attributes_perform (.remove key)).trans ?_
      rw [AttributeList.perform_remove]
      rfl
  | setTime time =>
      cases time with
      | none => rfl
      | some i => rfl
  | withAttribute a => rfl

end ItemKind.Item

/-! ## What a run of changes says -/

/-- What the last change of a key stored under it. -/
def lastStored (cs : List (Change kind)) (key : Key) : Option Attribute :=
  (cs.filter fun c => c.key = key).getLast?.bind Change.stored

/-- The last moment at which nothing stood under a key, as the number of changes before. -/
def lastAbsent (cs : List (Change kind)) (key : Key) : Nat :=
  Nat.findGreatest (fun n => (lastStored (cs.take n) key).isNone) cs.length

theorem lastStored_append (cs : List (Change kind)) (c : Change kind) (key : Key) :
    lastStored (cs ++ [c]) key = if c.key = key then c.stored else lastStored cs key := by
  rw [lastStored, List.filter_append]
  split
  next same => simp [same]
  next other => simp [other, lastStored]

theorem lastAbsent_lt {cs : List (Change kind)} {key : Key} (h : lastStored cs key ≠ none) :
    lastAbsent cs key < cs.length := by
  have absent : (lastStored (cs.take (lastAbsent cs key)) key).isNone :=
    Nat.findGreatest_spec (m := 0) (P := fun n => (lastStored (cs.take n) key).isNone)
      (Nat.zero_le cs.length) rfl
  refine Nat.lt_of_le_of_ne (Nat.findGreatest_le _) fun whole => h ?_
  rw [whole, List.take_length] at absent
  exact Option.isNone_iff_eq_none.mp absent

/-- A key that is there after one more change came in with that change, or was there
before and keeps its moment. -/
theorem lastAbsent_append {cs : List (Change kind)} {c : Change kind} {key : Key}
    (h : lastStored (cs ++ [c]) key ≠ none) :
    lastAbsent (cs ++ [c]) key =
      if lastStored cs key = none then cs.length else lastAbsent cs key := by
  have earlier (n : Nat) (le : n ≤ cs.length) : (cs ++ [c]).take n = cs.take n :=
    List.take_append_of_le_length le
  have now : ¬ (lastStored ((cs ++ [c]).take (cs.length + 1)) key).isNone = true := by
    rw [← List.length_singleton (a := c), ← List.length_append, List.take_length,
      Option.isNone_iff_eq_none]
    exact h
  rw [lastAbsent, List.length_append, List.length_singleton, Nat.findGreatest_of_not now,
    Nat.findGreatest_eq_iff]
  split
  next absent =>
    refine ⟨Nat.le_refl _, fun _ => ?_, fun n lt le => absurd lt (Nat.not_lt.mpr le)⟩
    rw [earlier _ (Nat.le_refl _), List.take_length, absent]
    rfl
  next present =>
    obtain ⟨le, absent, later⟩ := Nat.findGreatest_eq_iff.mp (rfl : lastAbsent cs key = _)
    refine ⟨le, fun ne => ?_, fun n lt bound => ?_⟩
    · rw [earlier _ le]
      exact absent ne
    · rw [earlier _ bound]
      exact later lt bound

/-! ## The invariant -/

/-- A list holds what the changes say, in the order that they say. -/
structure InOrder (cs : List (Change kind)) (as : AttributeList) : Prop where
  find?_eq : ∀ key, as.find? key = lastStored cs key
  ordered : as.keys.Pairwise fun key other => lastAbsent cs key < lastAbsent cs other

namespace InOrder

theorem nil : InOrder ([] : List (Change kind)) .empty := ⟨fun _ => rfl, .nil⟩

theorem distinct {cs : List (Change kind)} {as : AttributeList} (h : InOrder cs as) :
    as.keys.Nodup := by
  refine h.ordered.imp fun {key other} lt eq => ?_
  rw [eq] at lt
  exact Nat.lt_irrefl _ lt

theorem mem_keys_iff {cs : List (Change kind)} {as : AttributeList} (h : InOrder cs as)
    {key : Key} : key ∈ as.keys ↔ lastStored cs key ≠ none := by
  rw [← h.find?_eq, ne_eq, AttributeList.find?_eq_none_iff, not_not]

theorem find?_store {cs : List (Change kind)} {as : AttributeList} (h : InOrder cs as)
    (c : Change kind) (key : Key) :
    (as.store c.key c.stored).find? key = lastStored (cs ++ [c]) key := by
  rw [lastStored_append, ← h.find?_eq]
  cases stored : c.stored with
  | some a => rw [AttributeList.store, as.find?_set, Change.key_of_stored stored]
  | none => rw [AttributeList.store, AttributeList.find?_remove h.distinct]

/-- The keys that stay keep their moments. -/
theorem ordered_of_sublist {cs : List (Change kind)} {as : AttributeList} (h : InOrder cs as)
    {c : Change kind} {keys : List Key} (sub : keys.Sublist as.keys)
    (there : ∀ key ∈ keys, lastStored (cs ++ [c]) key ≠ none) :
    keys.Pairwise fun key other => lastAbsent (cs ++ [c]) key < lastAbsent (cs ++ [c]) other := by
  have kept : ∀ key ∈ keys, lastAbsent (cs ++ [c]) key = lastAbsent cs key := by
    intro key mem
    rw [lastAbsent_append (there key mem), if_neg (h.mem_keys_iff.mp (sub.subset mem))]
  refine (h.ordered.sublist sub).imp_of_mem fun {key other} mem mem' lt => ?_
  rw [kept key mem, kept other mem']
  exact lt

theorem ordered_store {cs : List (Change kind)} {as : AttributeList} (h : InOrder cs as)
    (c : Change kind) :
    (as.store c.key c.stored).keys.Pairwise fun key other =>
      lastAbsent (cs ++ [c]) key < lastAbsent (cs ++ [c]) other := by
  have there : ∀ key ∈ (as.store c.key c.stored).keys, lastStored (cs ++ [c]) key ≠ none := by
    intro key mem none
    rw [← h.find?_store, AttributeList.find?_eq_none_iff] at none
    exact none mem
  cases stored : c.stored with
  | none =>
      rw [stored, AttributeList.store] at there
      rw [AttributeList.store]
      refine h.ordered_of_sublist ?_ there
      rw [as.keys_remove]
      exact List.erase_sublist
  | some a =>
      have same : a.key = c.key := Change.key_of_stored stored
      rw [stored, AttributeList.store, as.keys_set, same] at there
      rw [AttributeList.store, as.keys_set, same]
      split
      next old =>
        rw [if_pos old] at there
        exact h.ordered_of_sublist (List.Sublist.refl _) there
      next new =>
        rw [if_neg new] at there
        have absent : lastStored cs c.key = none := not_not.mp (mt h.mem_keys_iff.mpr new)
        have last : lastAbsent (cs ++ [c]) c.key = cs.length := by
          rw [lastAbsent_append (there c.key (by simp)), if_pos absent]
        refine List.pairwise_append.mpr ⟨?_, List.pairwise_singleton _ _, ?_⟩
        · exact h.ordered_of_sublist (List.Sublist.refl _) fun key mem =>
            there key (List.mem_append_left _ mem)
        · intro key mem other mem'
          have present : lastStored cs key ≠ none := h.mem_keys_iff.mp mem
          rw [List.mem_singleton.mp mem', last,
            lastAbsent_append (there key (List.mem_append_left _ mem)), if_neg present]
          exact lastAbsent_lt present

/-- One change keeps the invariant. -/
theorem make {cs : List (Change kind)} {i : kind.Item} (h : InOrder cs i.attributes)
    (c : Change kind) : InOrder (cs ++ [c]) (i.make c).2.attributes := by
  rw [i.attributes_make]
  exact ⟨h.find?_store c, h.ordered_store c⟩

/-- A run of changes keeps it. -/
theorem makeAll {done : List (Change kind)} {i : kind.Item} (h : InOrder done i.attributes)
    (cs : List (Change kind)) : InOrder (done ++ cs) (i.makeAll cs).attributes := by
  induction cs generalizing done i with
  | nil =>
      rw [List.append_nil]
      exact h
  | cons c cs ih =>
      have whole := ih (h.make c)
      rw [List.append_assoc, List.singleton_append] at whole
      exact whole

end InOrder

/-! ## Records -/

/-- Whatever was done to a record, no key repeats, what stands under a key is what was
stored there last, and the keys stand in the order in which they came in.  What is
removed next is what is found. -/
theorem ItemKind.Item.insertionOrdered (kind : ItemKind) (uuid about : String)
    (now : Calendar.Instant) (cs : List (Change kind)) :
    let item := (Item.new kind uuid about now).makeAll cs
    item.attributes.keys.Nodup ∧
      (∀ key, item.attributes.find? key = lastStored cs key) ∧
      (item.attributes.keys.Pairwise fun key other => lastAbsent cs key < lastAbsent cs other) ∧
      ∀ key, (item.make (.remove key)).1 = .found (item.attributes.find? key) := by
  intro item
  have start : InOrder ([] : List (Change kind)) (Item.new kind uuid about now).attributes := by
    rw [Item.attributes_new]
    exact InOrder.nil
  have run : InOrder cs item.attributes := start.makeAll cs
  refine ⟨run.distinct, run.find?_eq, run.ordered, fun key => ?_⟩
  have answer : (item.make (.remove key)).1 = (item.attributes.perform (.remove key)).1 := rfl
  rw [answer, AttributeList.perform_remove]

/-- A part number that was removed comes back behind the description. -/
example (now : Calendar.Instant) :
    ((Item.new .planItem "" "/Part" now).makeAll
      [.withAttribute (.ofText Key.partNumber "P-1"), .setText Key.partDescription (some "Nut"),
        .remove Key.partNumber, .set (.ofText Key.partNumber "P-2")]).attributes.keys =
      [Key.partDescription, Key.partNumber] := rfl

end Metrology
