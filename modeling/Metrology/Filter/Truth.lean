import Metrology.Filter.Tree

/-!
# What filters mean

A filter tree is true or false of an entry.  The comparisons in it are taken as they
come, and a valuation says which of them hold.  Conjunctions, disjunctions and
negations then have their usual meaning.

Two comparisons are the same atom if they have the same operator, the same field and
the same literals.  The null literal differs from every text.
-/

namespace Metrology.Filter

/-- What a field is compared with. -/
inductive Operand where
  /-- One literal. -/
  | one (literal : Option String)
  /-- A list of literals. -/
  | many (literals : List (Option String))
deriving DecidableEq, Repr

/-- A comparison, seen as one statement about an entry. -/
structure Atom where
  /-- How field and literals are compared. -/
  operator : TokenKind
  /-- The name of the field. -/
  field : Option String
  /-- What it is compared with. -/
  operand : Operand
deriving DecidableEq, Repr

/-- Says which comparisons hold. -/
abbrev Valuation := Atom → Bool

namespace Tree

/-- A tree as the right operand of a comparison. -/
def asOperand (t : Tree) : Operand :=
  if t.kind = .valueList then .many (t.children.map fun entry => entry.token.text)
  else .one t.token.text

mutual

/-- Whether a tree is true under a valuation.  What is no predicate is false. -/
def holds (v : Valuation) : Tree → Bool
  | node token children =>
    match token.kind, children with
    | .and, children => allHold v children
    | .or, children => someHolds v children
    | .not, [child] => !holds v child
    | operator, [field, operand] => v ⟨operator, field.token.text, operand.asOperand⟩
    | _, _ => false

/-- Whether all trees are true under a valuation. -/
def allHold (v : Valuation) : List Tree → Bool
  | [] => true
  | t :: ts => holds v t && allHold v ts

/-- Whether some tree is true under a valuation. -/
def someHolds (v : Valuation) : List Tree → Bool
  | [] => false
  | t :: ts => holds v t || someHolds v ts

end

end Tree

end Metrology.Filter
