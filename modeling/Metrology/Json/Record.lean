import Metrology.Json.Reading

/-!
# Records and words in JSON

A record comes as an object with named members, or as an array of its fields in
order.  Members with other names are passed over, whatever they hold, so long as
their own names stand for a text.  A member that is known must not come twice.

A word of a vocabulary comes as a string, or as an object whose only member has that
name and the value `null`.
-/

namespace Metrology.Json

namespace Document

/-- Whether all names stand for a text. -/
def areNamed (members : List (Option String × Document)) : Bool :=
  members.all fun member => member.1.isSome

/-- The value of the member with the given name, if there is one.  Fails if there are
several. -/
def member? (members : List (Option String × Document)) (name : String) :
    Option (Option Document) :=
  match members.filter fun member => member.1 == some name with
  | [] => some none
  | [(_, value)] => some (some value)
  | _ => none

/-- The text of a string, or nothing where there is `null`. -/
def asOptionalText? : Document → Option (Option String)
  | null => some none
  | string (some text) => some (some text)
  | _ => none

/-- The natural number of a number that is below `bound`. -/
def asNatural? (bound : Nat) : Document → Option Nat
  | number n => do
    let value ← n.integer?
    if 0 ≤ value ∧ value < bound then some value.toNat else none
  | _ => none

/-- The word of a vocabulary. -/
def asWord? : Document → Option String
  | string text => text
  | object [(name, null)] => name
  | _ => none

end Document

end Metrology.Json
