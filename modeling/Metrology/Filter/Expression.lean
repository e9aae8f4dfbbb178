import Metrology.Filter.Condition
import Metrology.Filter.Truth

/-!
# Expressions

A caller joins conditions with operators and with the named constructors, in any
nesting.  An *expression* is what the caller has written.  It makes a condition, and
there the operators have been carried out: `&&&` and `|||` may have added their right
side to a list that their left side has made.

An expression also has a value, which follows what is written and knows nothing of
these lists.  The comparisons in it are valued as atoms.
-/

namespace Metrology.Filter

namespace Condition

mutual

/-- Whether a condition is true under a valuation. -/
def holds (v : Valuation) : Condition → Bool
  | and cs => allHold v cs
  | or cs => someHolds v cs
  | not c => !holds v c
  | time field comparison literal =>
    v ⟨comparison.kind, some field.name, .one (literal.map timeText)⟩
  | integer field comparison literal =>
    v ⟨comparison.kind, some field.name, .one (literal.map integerText)⟩
  | text field comparison literal => v ⟨comparison.kind, some field.name, .one literal⟩
  | integerIn field literals =>
    v ⟨.memberOf, some field.name, .many (literals.map fun n => some (integerText n))⟩
  | integerNotIn field literals =>
    v ⟨.notMemberOf, some field.name, .many (literals.map fun n => some (integerText n))⟩

/-- Whether all conditions are true under a valuation. -/
def allHold (v : Valuation) : List Condition → Bool
  | [] => true
  | c :: cs => holds v c && allHold v cs

/-- Whether some condition is true under a valuation. -/
def someHolds (v : Valuation) : List Condition → Bool
  | [] => false
  | c :: cs => holds v c || someHolds v cs

end

end Condition

/-- A term over conditions, as it is written. -/
inductive Expression where
  /-- A condition that is there already. -/
  | condition (c : Condition)
  /-- `e &&& f` -/
  | both (left right : Expression)
  /-- `e ||| f` -/
  | either (left right : Expression)
  /-- `~~~e` -/
  | complement (e : Expression)
  /-- The conjunction of a list. -/
  | and (es : List Expression)
  /-- The disjunction of a list. -/
  | or (es : List Expression)
  /-- The negation by its constructor. -/
  | not (e : Expression)

namespace Expression

mutual

/-- The condition that an expression makes. -/
def toCondition : Expression → Condition
  | condition c => c
  | both left right => toCondition left &&& toCondition right
  | either left right => toCondition left ||| toCondition right
  | complement e => ~~~toCondition e
  | and es => .and (toConditions es)
  | or es => .or (toConditions es)
  | not e => .not (toCondition e)

/-- The conditions that expressions make, in order. -/
def toConditions : List Expression → List Condition
  | [] => []
  | e :: es => toCondition e :: toConditions es

end

mutual

/-- The value of an expression under a valuation. -/
def value (v : Valuation) : Expression → Bool
  | condition c => c.holds v
  | both left right => value v left && value v right
  | either left right => value v left || value v right
  | complement e => !value v e
  | and es => allTrue v es
  | or es => someTrue v es
  | not e => !value v e

/-- Whether all expressions are true. -/
def allTrue (v : Valuation) : List Expression → Bool
  | [] => true
  | e :: es => value v e && allTrue v es

/-- Whether some expression is true. -/
def someTrue (v : Valuation) : List Expression → Bool
  | [] => false
  | e :: es => value v e || someTrue v es

end

end Expression

end Metrology.Filter
