import Metrology.Item.AttributeList

/-!
# Operations on attributes

What can be asked of the attributes of a record, as data, so that a run of operations
is a list.  Each one has an answer and leaves a list behind.
-/

namespace Metrology

/-- One operation on an attribute list. -/
inductive Operation where
  /-- Stores an attribute under its key. -/
  | set (a : Attribute)
  /-- Stores a text under a key, or removes what is there. -/
  | setText (key : Key) (text : Option String)
  /-- Takes the first attribute with a key out of the list. -/
  | remove (key : Key)
  /-- Looks up the first attribute with a key. -/
  | find (key : Key)
  /-- Looks up the text of the first attribute with a key. -/
  | textOf (key : Key)
  /-- Adds an attribute at the end. -/
  | push (a : Attribute)
  /-- Removes all attributes. -/
  | clear

/-- What an operation answers. -/
inductive Answer where
  /-- Nothing. -/
  | done
  /-- An attribute, if there is one. -/
  | found (a : Option Attribute)
  /-- A text, if there is one. -/
  | text (text : Option String)

namespace AttributeList

/-- Carries out an operation. -/
def perform (as : AttributeList) : Operation → Answer × AttributeList
  | .set a => (.done, as.set a)
  | .setText key text => (.done, as.setText key text)
  | .remove key =>
    match as.take? key with
    | some (a, rest) => (.found (some a), rest)
    | none => (.found none, as)
  | .find key => (.found (as.find? key), as)
  | .textOf key => (.text (as.textOf? key), as)
  | .push a => (.done, as.push a)
  | .clear => (.done, .empty)

/-- Carries out operations one after another. -/
def performAll (as : AttributeList) : List Operation → List Answer × AttributeList
  | [] => ([], as)
  | operation :: operations =>
    let (answer, next) := as.perform operation
    let (answers, last) := next.performAll operations
    (answer :: answers, last)

end AttributeList

end Metrology
