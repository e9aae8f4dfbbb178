/-!
# Tokens

The vocabulary of filter trees.  A token is a kind and an optional text.  Values
and identifiers carry their text, and a value without text is the null literal.

A kind has two spellings.  Its *name* is for people and stands in messages.  Its
*word* is for documents.
-/

namespace Metrology.Filter

/-- What a node of a filter tree is. -/
inductive TokenKind where
  /-- A literal. -/
  | value
  /-- A list of literals. -/
  | valueList
  /-- The name of a field. -/
  | identifier
  /-- All children hold. -/
  | and
  /-- Some child holds. -/
  | or
  /-- The child does not hold. -/
  | not
  /-- Field and literal are the same. -/
  | equal
  /-- Field and literal differ. -/
  | notEqual
  /-- The field lies above the literal. -/
  | greater
  /-- The field lies above the literal or is the same. -/
  | greaterOrEqual
  /-- The field lies below the literal. -/
  | less
  /-- The field lies below the literal or is the same. -/
  | lessOrEqual
  /-- The field is one of the literals. -/
  | memberOf
  /-- The field is none of the literals. -/
  | notMemberOf
  /-- The field matches a pattern. -/
  | like
deriving DecidableEq, Repr

namespace TokenKind

/-- All kinds. -/
def all : List TokenKind :=
  [value, valueList, identifier, and, or, not, equal, notEqual, greater, greaterOrEqual, less,
    lessOrEqual, memberOf, notMemberOf, like]

/-- The name of a kind. -/
def name : TokenKind → String
  | value => "Value"
  | valueList => "ValueList"
  | identifier => "Identifier"
  | and => "And"
  | or => "Or"
  | not => "Not"
  | equal => "Equal"
  | notEqual => "NotEqual"
  | greater => "Greater"
  | greaterOrEqual => "GreaterOrEqual"
  | less => "Less"
  | lessOrEqual => "LessOrEqual"
  | memberOf => "In"
  | notMemberOf => "NotIn"
  | like => "Like"

/-- The word of a kind. -/
def word : TokenKind → String
  | value => "value"
  | valueList => "value_list"
  | identifier => "identifier"
  | and => "and"
  | or => "or"
  | not => "not"
  | equal => "equal"
  | notEqual => "not_equal"
  | greater => "greater"
  | greaterOrEqual => "greater_or_equal"
  | less => "less"
  | lessOrEqual => "less_or_equal"
  | memberOf => "in"
  | notMemberOf => "not_in"
  | like => "like"

/-- The kind with the given word. -/
def ofWord? (w : String) : Option TokenKind := all.find? fun k => k.word == w

/-- Whether a kind combines predicates. -/
def isLogical : TokenKind → Bool
  | and | or | not => true
  | _ => false

/-- Whether a kind compares a field with literals. -/
def isComparison : TokenKind → Bool
  | equal | notEqual | greater | greaterOrEqual | less | lessOrEqual | memberOf | notMemberOf
  | like => true
  | _ => false

end TokenKind

/-- A kind and the text that goes with it. -/
structure Token where
  /-- The kind. -/
  kind : TokenKind
  /-- The text, if the token carries one. -/
  text : Option String := none
deriving DecidableEq, Repr

/-- A token as shown in messages: its name, and its text in brackets. -/
def Token.display (t : Token) : String :=
  match t.text with
  | some text => t.kind.name ++ "(" ++ text ++ ")"
  | none => t.kind.name

end Metrology.Filter
