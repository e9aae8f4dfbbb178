import Metrology.Calendar.Timestamp
import Metrology.Filter.Field
import Metrology.Filter.Tree
import Metrology.Text.Integer

/-!
# Conditions

A condition says which raw data entries a query asks for.  It compares fields with
literals of their own kind and joins the outcomes.  A literal may be missing, and
then it is the null literal.

Every condition compiles to a filter tree.  The order of its parts stays, and
timestamps keep their kind.

`c &&& d` and `c ||| d` join two conditions, and `~~~c` negates one.  Where the left
side is a conjunction or a disjunction already, the right side is added at its end,
and so chains stay flat.
-/

namespace Metrology.Filter

open Calendar (Timestamp)

/-- What is asked of an entry. -/
inductive Condition where
  /-- All of these hold. -/
  | and (conditions : List Condition)
  /-- Some of these hold. -/
  | or (conditions : List Condition)
  /-- This does not hold. -/
  | not (condition : Condition)
  /-- A comparison with a timestamp. -/
  | time (field : TimeField) (comparison : Comparison) (literal : Option Timestamp)
  /-- A comparison with an integer. -/
  | integer (field : IntegerField) (comparison : Comparison) (literal : Option Int64)
  /-- A comparison with a text. -/
  | text (field : TextField) (comparison : Comparison) (literal : Option String)
  /-- The field is one of the integers. -/
  | integerIn (field : IntegerField) (literals : List Int64)
  /-- The field is none of the integers. -/
  | integerNotIn (field : IntegerField) (literals : List Int64)

namespace Condition

/-! ## Equality -/

mutual

/-- Whether two conditions are the same. -/
def same : Condition → Condition → Bool
  | and cs, and ds => sameAll cs ds
  | or cs, or ds => sameAll cs ds
  | not c, not d => same c d
  | time f o l, time g p m => decide (f = g ∧ o = p ∧ l = m)
  | integer f o l, integer g p m => decide (f = g ∧ o = p ∧ l = m)
  | text f o l, text g p m => decide (f = g ∧ o = p ∧ l = m)
  | integerIn f ls, integerIn g ms => decide (f = g ∧ ls = ms)
  | integerNotIn f ls, integerNotIn g ms => decide (f = g ∧ ls = ms)
  | _, _ => false

/-- Whether two lists of conditions are the same. -/
def sameAll : List Condition → List Condition → Bool
  | [], [] => true
  | c :: cs, d :: ds => same c d && sameAll cs ds
  | _, _ => false

end

mutual

theorem same_iff : (c d : Condition) → (same c d = true ↔ c = d)
  | and cs, d => by cases d <;> simp [same, sameAll_iff cs]
  | or cs, d => by cases d <;> simp [same, sameAll_iff cs]
  | not c, d => by cases d <;> simp [same, same_iff c]
  | time .., d => by cases d <;> simp [same]
  | integer .., d => by cases d <;> simp [same]
  | text .., d => by cases d <;> simp [same]
  | integerIn .., d => by cases d <;> simp [same]
  | integerNotIn .., d => by cases d <;> simp [same]

theorem sameAll_iff : (cs ds : List Condition) → (sameAll cs ds = true ↔ cs = ds)
  | [], ds => by cases ds <;> simp [sameAll]
  | c :: cs, ds => by cases ds <;> simp [sameAll, same_iff c, sameAll_iff cs]

end

instance : DecidableEq Condition := fun c d => decidable_of_iff _ (same_iff c d)

/-! ## Joining -/

/-- Both conditions hold. -/
def both : Condition → Condition → Condition
  | and cs, d => and (cs ++ [d])
  | c, d => and [c, d]

/-- One of the conditions holds. -/
def either : Condition → Condition → Condition
  | or cs, d => or (cs ++ [d])
  | c, d => or [c, d]

instance : AndOp Condition := ⟨both⟩

instance : OrOp Condition := ⟨either⟩

instance : Complement Condition := ⟨not⟩

/-! ## Compiling -/

/-- The text of an integer literal. -/
def integerText (n : Int64) : String := String.ofList (Text.writeInteger n.toInt)

/-- The text of a timestamp literal. -/
def timeText (t : Timestamp) : String := String.ofList t.write

/-- The tree of a comparison with one literal. -/
def compare (field : String) (comparison : Comparison) (literal : Option String) : Tree :=
  .ofComparison comparison.kind field (.ofValue literal)

/-- The tree of a comparison with a list of integers. -/
def compareAll (kind : TokenKind) (field : String) (literals : List Int64) : Tree :=
  .ofComparison kind field (.ofValues (literals.map fun n => some (integerText n)))

mutual

/-- The filter tree of a condition. -/
def compile : Condition → Tree
  | and cs => .ofAnd (compileAll cs)
  | or cs => .ofOr (compileAll cs)
  | not c => .ofNot (compile c)
  | time field comparison literal => compare field.name comparison (literal.map timeText)
  | integer field comparison literal => compare field.name comparison (literal.map integerText)
  | text field comparison literal => compare field.name comparison literal
  | integerIn field literals => compareAll .memberOf field.name literals
  | integerNotIn field literals => compareAll .notMemberOf field.name literals

/-- The filter trees of conditions, in order. -/
def compileAll : List Condition → List Tree
  | [] => []
  | c :: cs => compile c :: compileAll cs

end

theorem compileAll_eq_map (cs : List Condition) : compileAll cs = cs.map compile := by
  induction cs with
  | nil => rfl
  | cons c cs ih => simp [compileAll, ih]

/-! ## Height and timestamps -/

mutual

/-- The number of levels that a condition takes as a tree.  A comparison takes two,
and three if it has a list of literals that is not empty. -/
def height : Condition → Nat
  | and cs => heightOfAll cs + 1
  | or cs => heightOfAll cs + 1
  | not c => height c + 1
  | time .. | integer .. | text .. => 2
  | integerIn _ literals | integerNotIn _ literals => if literals.isEmpty then 2 else 3

/-- The largest height of a list of conditions. -/
def heightOfAll : List Condition → Nat
  | [] => 0
  | c :: cs => max (height c) (heightOfAll cs)

end

mutual

/-- A condition with its timestamps replaced. -/
def mapTimes (f : Timestamp → Timestamp) : Condition → Condition
  | and cs => and (mapTimesAll f cs)
  | or cs => or (mapTimesAll f cs)
  | not c => not (mapTimes f c)
  | time field comparison literal => time field comparison (literal.map f)
  | c => c

/-- Conditions with their timestamps replaced. -/
def mapTimesAll (f : Timestamp → Timestamp) : List Condition → List Condition
  | [] => []
  | c :: cs => mapTimes f c :: mapTimesAll f cs

end

end Condition

end Metrology.Filter
