import Metrology.Item.Measurement
import Metrology.Item.Operation
import Metrology.Item.PlanItem

/-!
# Changes of a record

Measurements and plan items carry attributes in the same way.  Most changes can be made
to both kinds of record, but only a measurement has a time, and only to a plan item
attributes are added while it is built.  A change is data, so that a run of changes is a
list.  It is always one that its kind of record knows.

Changes go through the keys of the attributes.  Nothing here reaches into the list
itself.
-/

namespace Metrology

open Calendar (Instant)

/-- The kinds of records that carry attributes. -/
inductive ItemKind where
  /-- Measurements. -/
  | measurement
  /-- Parts and characteristics of a plan. -/
  | planItem
deriving DecidableEq, Repr

/-- The records of a kind. -/
def ItemKind.Item : ItemKind → Type
  | measurement => Measurement
  | planItem => PlanItem

/-- A change of the attributes of a record. -/
inductive Change : ItemKind → Type where
  /-- Stores an attribute under its key. -/
  | set (a : Attribute) : Change kind
  /-- Stores a text under a key, or removes what is there. -/
  | setText (key : Key) (text : Option String) : Change kind
  /-- Takes out the attribute with a key. -/
  | remove (key : Key) : Change kind
  /-- Stores the time of a measurement, or removes it. -/
  | setTime (time : Option Instant) : Change .measurement
  /-- Adds an attribute to a plan item. -/
  | withAttribute (a : Attribute) : Change .planItem

namespace ItemKind.Item

variable {kind : ItemKind}

/-- A new record.  `about` is the part that is measured, or the path of the plan item. -/
def new : (kind : ItemKind) → (uuid about : String) → (now : Instant) → kind.Item
  | .measurement, uuid, partUuid, now => Measurement.new uuid partUuid now
  | .planItem, uuid, path, now => PlanItem.new uuid path now

/-- The attributes of a record. -/
def attributes : {kind : ItemKind} → kind.Item → AttributeList
  | .measurement, m => Measurement.attributes m
  | .planItem, p => PlanItem.attributes p

/-- The record with other attributes. -/
def replaceAttributes : {kind : ItemKind} → kind.Item → AttributeList → kind.Item
  | .measurement, (m : Measurement), as => { m with attributes := as }
  | .planItem, (p : PlanItem), as => { p with attributes := as }

/-- Carries out an operation on the attributes of a record. -/
def perform (i : kind.Item) (operation : Operation) : Answer × kind.Item :=
  let (answer, as) := i.attributes.perform operation
  (answer, i.replaceAttributes as)

/-- Makes a change. -/
def make : {kind : ItemKind} → kind.Item → Change kind → Answer × kind.Item
  | _, i, .set a => i.perform (.set a)
  | _, i, .setText key text => i.perform (.setText key text)
  | _, i, .remove key => i.perform (.remove key)
  | _, m, .setTime time => (.done, Measurement.setTime m time)
  | _, p, .withAttribute a => (.done, PlanItem.withAttribute p a)

/-- Makes changes one after another. -/
def makeAll (i : kind.Item) : List (Change kind) → kind.Item
  | [] => i
  | change :: changes => (i.make change).2.makeAll changes

end ItemKind.Item

end Metrology
