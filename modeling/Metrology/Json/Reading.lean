import Metrology.Json.Lexeme

/-!
# Reading JSON

A document is read from its lexemes, one after another.  What is open on the way, an
array or an object with all it holds so far, lies on a stack of frames.  So
documents may nest to any depth, and how deep they may nest is for others to say.
-/

namespace Metrology.Json

/-- An array or an object that is still open. -/
inductive Frame where
  /-- An array with its items so far, the last one first. -/
  | array (items : List Document)
  /-- An object with its members so far, the last one first. -/
  | object (members : List (Option String × Document))
  /-- An object in which a name waits for its value. -/
  | member (members : List (Option String × Document)) (name : Option String)

/-- What may come next. -/
inductive Expected where
  /-- A value. -/
  | value
  /-- A value, or the end of the array that has just begun. -/
  | itemOrEnd
  /-- The name of a member. -/
  | name
  /-- The name of a member, or the end of the object that has just begun. -/
  | nameOrEnd
  /-- The colon behind a name. -/
  | colon
  /-- A comma, or the end of what is open. -/
  | commaOrEnd

/-- How far reading has come. -/
inductive State where
  /-- A document is complete. -/
  | complete (document : Document)
  /-- A document has begun or is about to. -/
  | within (expected : Expected) (frames : List Frame)

/-- Puts a value where the innermost frame needs one. -/
def State.put (value : Document) : List Frame → Option State
  | [] => some (.complete value)
  | .array items :: frames => some (.within .commaOrEnd (.array (value :: items) :: frames))
  | .member members name :: frames =>
    some (.within .commaOrEnd (.object ((name, value) :: members) :: frames))
  | .object _ :: _ => none

/-- Begins a value. -/
def State.beginValue (frames : List Frame) : Lexeme → Option State
  | .openArray => some (.within .itemOrEnd (.array [] :: frames))
  | .openObject => some (.within .nameOrEnd (.object [] :: frames))
  | .scalar value => State.put value frames
  | _ => none

/-- Reads the name of a member. -/
def State.beginMember : List Frame → Lexeme → Option State
  | .object members :: frames, .scalar (.string name) =>
    some (.within .colon (.member members name :: frames))
  | _, _ => none

/-- Ends the innermost frame. -/
def State.close : List Frame → Lexeme → Option State
  | .array items :: frames, .closeArray => State.put (.array items.reverse) frames
  | .object members :: frames, .closeObject => State.put (.object members.reverse) frames
  | _, _ => none

/-- Goes on after a comma. -/
def State.next : List Frame → Option State
  | .array items :: frames => some (.within .value (.array items :: frames))
  | .object members :: frames => some (.within .name (.object members :: frames))
  | _ => none

/-- Reads one more lexeme. -/
def State.step : State → Lexeme → Option State
  | .complete _, _ => none
  | .within .value frames, l => State.beginValue frames l
  | .within .itemOrEnd frames, l => State.close frames l <|> State.beginValue frames l
  | .within .name frames, l => State.beginMember frames l
  | .within .nameOrEnd frames, l => State.close frames l <|> State.beginMember frames l
  | .within .colon frames, .colon => some (.within .value frames)
  | .within .colon _, _ => none
  | .within .commaOrEnd frames, .comma => State.next frames
  | .within .commaOrEnd frames, l => State.close frames l

/-- The document that lexemes make up. -/
def ofLexemes? (ls : List Lexeme) : Option Document :=
  match ls.foldlM State.step (.within .value []) with
  | some (.complete document) => some document
  | _ => none

/-- The document of a text. -/
def read (s : String) : Option Document := (lexemes? s.toList).bind ofLexemes?

end Metrology.Json
