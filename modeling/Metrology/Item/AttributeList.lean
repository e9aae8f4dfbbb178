import Metrology.Attribute.Basic

/-!
# Attribute lists

The attributes of a record stand in a list.  Setting an attribute replaces the first
one with its key where it stands, and a new key goes last.  So there is at most one
attribute of each key, and they keep the order in which their keys came in.  Only
`push` does not look for the key.  Where a key occurs several times, the first
attribute stands for it.
-/

namespace Metrology

/-- The attributes of a record, in order. -/
@[ext]
structure AttributeList where
  /-- The attributes. -/
  toList : List Attribute := []

namespace AttributeList

/-- The list without attributes. -/
def empty : AttributeList := {}

/-- The first attribute with a key. -/
def find? (as : AttributeList) (key : Key) : Option Attribute :=
  as.toList.find? fun a => a.key = key

/-- The text of the first attribute with a key. -/
def textOf? (as : AttributeList) (key : Key) : Option String := (as.find? key).bind (·.text)

/-- Puts an attribute in the place of the first one with its key, or at the end. -/
def replaceFirst (a : Attribute) : List Attribute → List Attribute
  | [] => [a]
  | b :: bs => if b.key = a.key then a :: bs else b :: replaceFirst a bs

/-- Stores an attribute under its key. -/
def set (as : AttributeList) (a : Attribute) : AttributeList := ⟨replaceFirst a as.toList⟩

/-- The first attribute with a key, and the attributes without it. -/
def takeFirst (key : Key) : List Attribute → Option (Attribute × List Attribute)
  | [] => none
  | b :: bs =>
    if b.key = key then some (b, bs) else (takeFirst key bs).map fun (a, rest) => (a, b :: rest)

/-- Takes the first attribute with a key out of the list. -/
def take? (as : AttributeList) (key : Key) : Option (Attribute × AttributeList) :=
  (takeFirst key as.toList).map fun (a, rest) => (a, ⟨rest⟩)

/-- The list without the first attribute with a key. -/
def remove (as : AttributeList) (key : Key) : AttributeList :=
  match as.take? key with
  | some (_, rest) => rest
  | none => as

/-- Stores a text under a key, or removes what is there. -/
def setText (as : AttributeList) (key : Key) : Option String → AttributeList
  | some text => as.set (.ofText key text)
  | none => as.remove key

/-- Adds an attribute at the end. -/
def push (as : AttributeList) (a : Attribute) : AttributeList := ⟨as.toList ++ [a]⟩

/-- Whether two lists hold the same attributes in the same order. -/
def equals (as bs : AttributeList) : Bool := as.toList == bs.toList

instance : BEq AttributeList := ⟨equals⟩

end AttributeList

end Metrology
