import Metrology.Item.AttributeList

/-!
# Plan items

A part or a characteristic of an inspection plan.  A path of names with slashes
between them says where it stands in the plan.
-/

namespace Metrology

open Calendar (Instant)

/-- A part or a characteristic of an inspection plan. -/
structure PlanItem where
  /-- What identifies the item. -/
  uuid : String
  /-- The way from the root of the plan. -/
  path : String
  /-- A remark. -/
  comment : Option String := none
  /-- The number of the version. -/
  version : UInt32 := 0
  /-- When the item was last changed. -/
  timestamp : Instant
  /-- The attributes. -/
  attributes : AttributeList := .empty

namespace PlanItem

/-- The item at a path at the moment it is made. -/
def new (uuid path : String) (now : Instant) : PlanItem := { uuid, path, timestamp := now }

/-- The item with one more attribute. -/
def withAttribute (item : PlanItem) (a : Attribute) : PlanItem :=
  { item with attributes := item.attributes.set a }

/-- An item as shown to people. -/
def display (item : PlanItem) : String :=
  String.ofList (Text.digits item.version.toNat) ++ " - " ++ item.path

/-- Whether two items have the same parts. -/
def equals (i j : PlanItem) : Bool :=
  i.uuid == j.uuid && i.path == j.path && i.comment == j.comment && i.version == j.version &&
    i.timestamp == j.timestamp && i.attributes == j.attributes

instance : BEq PlanItem := ⟨equals⟩

end PlanItem

end Metrology
