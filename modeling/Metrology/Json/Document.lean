import Metrology.Json.Number

/-!
# JSON documents

A document keeps all that its text says.  Numbers stay as they are written, members
keep their order, and a name may occur twice.  A string whose escapes name a lone
surrogate is well-formed, but there is no text that it stands for, and it is kept as
`none`.

A document is *plain* if it can be taken for a value: every string stands for a text,
no number is too large to be read, and no branch goes through more than `maxNesting`
arrays and objects.
-/

namespace Metrology.Json

/-- A value of JSON.  Strings without a text and names without one are `none`. -/
inductive Document where
  /-- The word `null`. -/
  | null
  /-- The word `true` or `false`. -/
  | boolean (value : Bool)
  /-- A number. -/
  | number (value : Number)
  /-- A string. -/
  | string (text : Option String)
  /-- An array. -/
  | array (items : List Document)
  /-- An object. -/
  | object (members : List (Option String × Document))
deriving Repr

namespace Document

/-- The largest number of arrays and objects around each other in a plain document. -/
abbrev maxNesting : Nat := 127

mutual

/-- The number of arrays and objects on the longest branch. -/
def nesting : Document → Nat
  | array items => nestingOfItems items + 1
  | object members => nestingOfMembers members + 1
  | _ => 0

/-- The largest nesting of the items of an array. -/
def nestingOfItems : List Document → Nat
  | [] => 0
  | item :: items => max (nesting item) (nestingOfItems items)

/-- The largest nesting of the members of an object. -/
def nestingOfMembers : List (Option String × Document) → Nat
  | [] => 0
  | (_, value) :: members => max (nesting value) (nestingOfMembers members)

end

mutual

/-- Whether every string has a text and every number can be read. -/
def isMeaningful : Document → Bool
  | number n => n.double?.isSome
  | string text => text.isSome
  | array items => areItemsMeaningful items
  | object members => areMembersMeaningful members
  | _ => true

/-- Whether the items of an array are meaningful. -/
def areItemsMeaningful : List Document → Bool
  | [] => true
  | item :: items => isMeaningful item && areItemsMeaningful items

/-- Whether the names and values of an object are meaningful. -/
def areMembersMeaningful : List (Option String × Document) → Bool
  | [] => true
  | (name, value) :: members =>
    name.isSome && isMeaningful value && areMembersMeaningful members

end

/-- Whether a document can be taken for a value. -/
def isPlain (d : Document) : Bool := d.nesting ≤ maxNesting && d.isMeaningful

end Document

end Metrology.Json
