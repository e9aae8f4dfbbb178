import Metrology.Filter.Render

/-!
# Shapes

A tree is *renderable* if its nodes have the shapes that filter text needs, all the
way down.  Predicates may be anything that is renderable itself, so a literal can
stand in a conjunction.  Pattern matching is never renderable.
-/

namespace Metrology.Filter.Tree

/-- A value without subtrees. -/
def isValueLeaf (t : Tree) : Bool := t.kind == .value && t.children.isEmpty

/-- An identifier with a name and without subtrees. -/
def isNamedLeaf (t : Tree) : Bool :=
  t.kind == .identifier && t.children.isEmpty && t.token.text.any (!·.isEmpty)

/-- A list of values without subtrees. -/
def isListOfLeaves (t : Tree) : Bool := t.kind == .valueList && t.children.all isValueLeaf

/-- The right operand that a comparison of the given kind needs. -/
def isOperandOf (operator : TokenKind) (t : Tree) : Bool :=
  if operator.operandKind = .valueList then t.isListOfLeaves else t.isValueLeaf

mutual

/-- Whether a tree has a text, if the limit allows it. -/
def isRenderable : Tree → Bool
  | node token children =>
    match token.kind, children with
    | .value, children | .valueList, children | .identifier, children =>
      let t := node token children
      t.isValueLeaf || t.isListOfLeaves || t.isNamedLeaf
    | .and, children | .or, children => areRenderable children
    | .not, [child] => isRenderable child
    | .like, _ | .not, _ => false
    | operator, [field, operand] => field.isNamedLeaf && operand.isOperandOf operator
    | _, _ => false

/-- Whether all trees are renderable. -/
def areRenderable : List Tree → Bool
  | [] => true
  | t :: ts => isRenderable t && areRenderable ts

end

end Metrology.Filter.Tree
