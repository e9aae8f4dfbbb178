import Metrology.Filter.Token

/-!
# Filter trees

A filter tree is a token with subtrees.  Any token may have any subtrees here.
Which trees have a text is decided when they are written, and the constructors
with a name build trees of the shapes that do.

| token                  | subtrees                                     |
|------------------------|----------------------------------------------|
| value, identifier      | none                                         |
| value list             | values                                       |
| and, or                | any number of predicates                     |
| not                    | one predicate                                |
| comparison             | an identifier, and a value or a value list   |

The *depth* of a tree is the number of nodes on its longest branch.  It is found
with a list of nodes still to visit, each with its own distance from the root, so
no branch is too long for it.
-/

namespace Metrology.Filter

/-- A token with subtrees. -/
inductive Tree where
  /-- A node. -/
  | node (token : Token) (children : List Tree)
deriving Repr

namespace Tree

/-! ## Parts -/

/-- The token of the root. -/
def token : Tree → Token
  | node token _ => token

/-- The subtrees below the root, in order. -/
def children : Tree → List Tree
  | node _ children => children

/-- The kind of the root. -/
def kind (t : Tree) : TokenKind := t.token.kind

/-! ## Named shapes -/

/-- A literal.  Without a text it is the null literal. -/
def ofValue (text : Option String) : Tree := node ⟨.value, text⟩ []

/-- A list of literals. -/
def ofValues (texts : List (Option String)) : Tree := node ⟨.valueList, none⟩ (texts.map ofValue)

/-- The name of a field. -/
def ofIdentifier (name : String) : Tree := node ⟨.identifier, some name⟩ []

/-- The conjunction of the given predicates. -/
def ofAnd (predicates : List Tree) : Tree := node ⟨.and, none⟩ predicates

/-- The disjunction of the given predicates. -/
def ofOr (predicates : List Tree) : Tree := node ⟨.or, none⟩ predicates

/-- The negation of a predicate. -/
def ofNot (predicate : Tree) : Tree := node ⟨.not, none⟩ [predicate]

/-- The comparison of a field with a literal or a list of them. -/
def ofComparison (operator : TokenKind) (field : String) (operand : Tree) : Tree :=
  node ⟨operator, none⟩ [ofIdentifier field, operand]

/-! ## Equality -/

mutual

/-- Decides whether two trees are the same. -/
def decEq : (s t : Tree) → Decidable (s = t)
  | node a as, node b bs =>
    haveI := decEqAll as bs
    decidable_of_iff (a = b ∧ as = bs) (by simp)

/-- Decides whether two lists of trees are the same. -/
def decEqAll : (ss ts : List Tree) → Decidable (ss = ts)
  | [], [] => isTrue rfl
  | s :: ss, t :: ts =>
    haveI := decEq s t
    haveI := decEqAll ss ts
    decidable_of_iff (s = t ∧ ss = ts) (by simp)
  | [], _ :: _ | _ :: _, [] => isFalse (by simp)

end

instance : DecidableEq Tree := decEq

/-! ## Size and depth -/

mutual

/-- The number of nodes of a tree. -/
def size : Tree → Nat
  | node _ children => sizeAll children + 1

/-- The number of nodes of a list of trees. -/
def sizeAll : List Tree → Nat
  | [] => 0
  | t :: ts => size t + sizeAll ts

end

/-- Nodes still to visit, each with the number of nodes from the root down to it. -/
abbrev Pending := List (Tree × Nat)

/-- The number of nodes in and below those still to visit. -/
def Pending.weight : Pending → Nat
  | [] => 0
  | (t, _) :: rest => t.size + Pending.weight rest

theorem Pending.weight_append (p q : Pending) :
    Pending.weight (p ++ q) = Pending.weight p + Pending.weight q := by
  induction p with
  | nil => simp [weight]
  | cons entry p ih => simp only [List.cons_append, weight, ih]; omega

/-- The given trees, all at one distance. -/
def Pending.ofTrees (d : Nat) (ts : List Tree) : Pending := ts.map fun t => (t, d)

theorem Pending.weight_ofTrees (d : Nat) (ts : List Tree) :
    Pending.weight (Pending.ofTrees d ts) = sizeAll ts := by
  induction ts with
  | nil => rfl
  | cons t ts ih =>
    rw [sizeAll, ← ih]
    rfl

/-- The largest of `deepest` and the distances of all nodes in and below those
still to visit. -/
def depthFrom (deepest : Nat) : Pending → Nat
  | [] => deepest
  | (node _ children, d) :: rest =>
    depthFrom (max deepest d) (Pending.ofTrees (d + 1) children ++ rest)
termination_by pending => Pending.weight pending
decreasing_by
  simp only [Pending.weight_append, Pending.weight_ofTrees, Pending.weight, size]
  omega

/-- The number of nodes on the longest branch of a tree. -/
def depth (t : Tree) : Nat := depthFrom 0 [(t, 1)]

/-! ## Views -/

/-- A tree without what lies deeper than `levels` levels below its root. -/
def cut : (levels : Nat) → Tree → Tree
  | 0, node token _ => node token []
  | levels + 1, node token children => node token (children.map (cut levels))

mutual

/-- The texts of the values of a tree from left to right, without the null literals. -/
def literals : Tree → List String
  | node token children =>
    (if token.kind = .value then token.text.toList else []) ++ literalsOfAll children

/-- The texts of the values of a list of trees. -/
def literalsOfAll : List Tree → List String
  | [] => []
  | t :: ts => literals t ++ literalsOfAll ts

end

end Tree

end Metrology.Filter
