import Metrology.Filter.Literal
import Metrology.Filter.Tree
import Metrology.Text.Digits

/-!
# Filter text

The text of a filter tree in the grammar of the raw data search.

```text
(LastModified > '2015-03-09T19:12:00Z' and not (MimeType = 'text/plain'))
Key in ('1', '2')
```

Conjunctions and disjunctions stand in brackets.  The empty ones are the constants
`true` and `false`.  A negation puts brackets around its predicate, unless the
predicate brings its own.

Not every tree has a text.  The grammar has no pattern matching, a node needs the
shape that its token asks for, and a limit bounds the depth.  The text is written
from left to right behind what is already there, and the first fault on the way
ends it.  At each node the depth is looked at first, then the shape, then the
subtrees in order.  A list of values looks at the depth of its entries before it
looks at their shape.
-/

namespace Metrology.Filter

/-! ## Faults -/

/-- How a node can fail to have the shape its token asks for. -/
inductive Fault where
  /-- A value or an identifier has subtrees. -/
  | leafWithChildren
  /-- An identifier has no text or an empty one. -/
  | identifierWithoutName
  /-- A negation has no subtree, or several. -/
  | notOneOperand
  /-- A comparison has another number of subtrees than two. -/
  | notTwoOperands
  /-- A comparison starts with something other than an identifier. -/
  | leftNotIdentifier
  /-- A comparison ends with a node of another kind than it needs. -/
  | rightNot (expected found : TokenKind)
  /-- A list of values holds something else. -/
  | entryNotValue
deriving DecidableEq, Repr

/-- The wording of a fault. -/
def Fault.message : Fault → String
  | leafWithChildren => "leaf token has children"
  | identifierWithoutName => "identifier has no name"
  | notOneOperand => "expected exactly one operand"
  | notTwoOperands => "expected an identifier and an operand"
  | leftNotIdentifier => "left operand is not an identifier"
  | rightNot expected found =>
    "right operand must be a " ++ expected.name ++ ", found " ++ found.name
  | entryNotValue => "list entries must be values"

/-- Why a tree has no text. -/
inductive RenderError where
  /-- The grammar has no form for this token. -/
  | unsupportedToken (token : Token)
  /-- The node of this token has the wrong shape. -/
  | malformedNode (token : Token) (fault : Fault)
  /-- The tree is deeper than the limit. -/
  | depthExceeded (limit : Nat)
deriving DecidableEq, Repr

namespace RenderError

/-- The wording of an error. -/
def message : RenderError → String
  | unsupportedToken token =>
    "token type '" ++ token.kind.name ++ "' is not supported by this formatter"
  | malformedNode token fault =>
    "malformed '" ++ token.display ++ "' node: " ++ fault.message
  | depthExceeded limit =>
    "filter tree exceeds the maximum depth of " ++ String.ofList (Text.digits limit)

/-- The token an error is about. -/
def token? : RenderError → Option Token
  | unsupportedToken token | malformedNode token _ => some token
  | depthExceeded _ => none

end RenderError

/-! ## Vocabulary -/

/-- The sign of a comparison.  Pattern matching has none. -/
def TokenKind.symbol? : TokenKind → Option String
  | equal => some "="
  | notEqual => some "!="
  | greater => some ">"
  | greaterOrEqual => some ">="
  | less => some "<"
  | lessOrEqual => some "<="
  | memberOf => some "in"
  | notMemberOf => some "notin"
  | _ => none

/-- The kind of the right operand of a comparison. -/
def TokenKind.operandKind : TokenKind → TokenKind
  | memberOf | notMemberOf => valueList
  | _ => value

namespace Tree

/-! ## Leaves and lists -/

/-- Fails below the limit. -/
def checkDepth (limit depth : Nat) : Except RenderError Unit :=
  if limit < depth then .error (.depthExceeded limit) else .ok ()

/-- Fails at a node with subtrees. -/
def checkLeaf (t : Tree) : Except RenderError Unit :=
  if t.children.isEmpty then .ok () else .error (.malformedNode t.token .leafWithChildren)

/-- Writes a literal behind `out`. -/
def writeValue (t : Tree) (out : String) : Except RenderError String := do
  checkLeaf t
  return out ++ String.ofList (Literal.write t.token.text)

/-- Writes the name of a field behind `out`. -/
def writeIdentifier (t : Tree) (out : String) : Except RenderError String := do
  checkLeaf t
  match t.token.text with
  | some name =>
    if name.isEmpty then .error (.malformedNode t.token .identifierWithoutName)
    else return out ++ name
  | none => .error (.malformedNode t.token .identifierWithoutName)

/-- Writes the entries of the list with the given token behind `out`, the first one
after `before` and the others after a comma. -/
def writeEntries (list : Token) (before : String) : List Tree → String → Except RenderError String
  | [], out => .ok out
  | entry :: entries, out =>
    if entry.kind = .value then do
      let out ← writeValue entry (out ++ before)
      writeEntries list ", " entries out
    else .error (.malformedNode list .entryNotValue)

/-- Writes a list of literals behind `out`.  Its entries count as one more level. -/
def writeValueList (limit : Nat) (t : Tree) (depth : Nat) (out : String) :
    Except RenderError String := do
  unless t.children.isEmpty do checkDepth limit (depth + 1)
  let out ← writeEntries t.token "" t.children (out ++ "(")
  return out ++ ")"

/-- Writes the comparison with the given token, sign and subtrees behind `out`. -/
def writeComparison (limit : Nat) (operator : Token) (symbol : String) (operands : List Tree)
    (depth : Nat) (out : String) : Except RenderError String :=
  match operands with
  | [field, operand] =>
    if field.kind ≠ .identifier then .error (.malformedNode operator .leftNotIdentifier)
    else if operand.kind ≠ operator.kind.operandKind then
      .error (.malformedNode operator (.rightNot operator.kind.operandKind operand.kind))
    else do
      checkDepth limit (depth + 1)
      let out ← writeIdentifier field out
      let out := out ++ " " ++ symbol ++ " "
      if operand.kind = .valueList then writeValueList limit operand (depth + 1) out
      else writeValue operand out
  | _ => .error (.malformedNode operator .notTwoOperands)

/-! ## Trees -/

/-- Whether the text of a tree brings its own brackets. -/
def isBracketed (t : Tree) : Bool := t.kind == .and || t.kind == .or

mutual

/-- Writes a tree behind `out`.  Its root is the `depth`th node of its branch. -/
def write (limit : Nat) : Tree → (depth : Nat) → (out : String) → Except RenderError String
  | node token children, depth, out => do
    checkDepth limit depth
    match token.kind, children with
    | .value, children => writeValue (node token children) out
    | .valueList, children => writeValueList limit (node token children) depth out
    | .identifier, children => writeIdentifier (node token children) out
    | .and, [] => return out ++ "true"
    | .and, child :: rest =>
      let out ← write limit child (depth + 1) (out ++ "(")
      let out ← writeRest limit " and " rest (depth + 1) out
      return out ++ ")"
    | .or, [] => return out ++ "false"
    | .or, child :: rest =>
      let out ← write limit child (depth + 1) (out ++ "(")
      let out ← writeRest limit " or " rest (depth + 1) out
      return out ++ ")"
    | .not, [child] =>
      if child.isBracketed then write limit child (depth + 1) (out ++ "not ")
      else
        let out ← write limit child (depth + 1) (out ++ "not (")
        return out ++ ")"
    | .not, _ => .error (.malformedNode token .notOneOperand)
    | kind, children =>
      match kind.symbol? with
      | some symbol => writeComparison limit token symbol children depth out
      | none => .error (.unsupportedToken token)

/-- Writes trees behind `out`, each after `separator`. -/
def writeRest (limit : Nat) (separator : String) :
    List Tree → (depth : Nat) → (out : String) → Except RenderError String
  | [], _, out => .ok out
  | t :: ts, depth, out => do
    let out ← write limit t depth (out ++ separator)
    writeRest limit separator ts depth out

end

end Tree

/-! ## Limits -/

/-- How filter text is written. -/
structure RenderConfig where
  /-- The largest depth of a tree that has a text. -/
  maxDepth : Nat := 32
deriving DecidableEq, Repr

/-- The text of a tree. -/
def Tree.render (config : RenderConfig) (t : Tree) : Except RenderError String :=
  t.write config.maxDepth 1 ""

end Metrology.Filter
