import Metrology.Filter.Field
import Metrology.Filter.Render
import Metrology.Json.Record

/-!
# The filter vocabulary in JSON

A token is a record of the word of its kind and its text.  The text may be missing,
and it is left out where there is none.  The limits of filter text are a record too,
in which everything may be missing.  Words of the vocabulary stand for themselves.
-/

namespace Metrology.Filter

open Json (Document)

/-- The kind that a document names. -/
def TokenKind.ofDocument? (d : Document) : Option TokenKind := d.asWord?.bind ofWord?

/-- The field of timestamps that a document names. -/
def TimeField.ofDocument? (d : Document) : Option TimeField := d.asWord?.bind ofWord?

/-- The field of integers that a document names. -/
def IntegerField.ofDocument? (d : Document) : Option IntegerField := d.asWord?.bind ofWord?

/-- The field of texts that a document names. -/
def TextField.ofDocument? (d : Document) : Option TextField := d.asWord?.bind ofWord?

/-- The comparison that a document names. -/
def Comparison.ofDocument? (d : Document) : Option Comparison := d.asWord?.bind ofWord?

/-- Reads a token. -/
def Token.ofRecord? : Document → Option Token
  | .array [kind] => do return ⟨← TokenKind.ofDocument? kind, none⟩
  | .array [kind, text] => do return ⟨← TokenKind.ofDocument? kind, ← text.asOptionalText?⟩
  | .object members =>
    if Document.areNamed members then do
      let kind ← (← Document.member? members "token_type")
      let text := (← Document.member? members "value").getD .null
      return ⟨← TokenKind.ofDocument? kind, ← text.asOptionalText?⟩
    else none
  | _ => none

/-- The record of a token. -/
def Token.toRecord (t : Token) : Document :=
  let kind := (some "token_type", .string (some t.kind.word))
  match t.text with
  | some text => .object [kind, (some "value", .string (some text))]
  | none => .object [kind]

/-- Reads a depth limit. -/
def RenderConfig.ofLimit? (limit : Document) : Option RenderConfig :=
  (limit.asNatural? (Nat.pow 2 64)).map fun n => ⟨n⟩

/-- Reads the limits of filter text. -/
def RenderConfig.ofRecord? : Document → Option RenderConfig
  | .array [] => some {}
  | .array [limit] => ofLimit? limit
  | .object members =>
    if Document.areNamed members then do
      match ← Document.member? members "max_depth" with
      | some limit => ofLimit? limit
      | none => some {}
    else none
  | _ => none

/-- The record of the limits of filter text. -/
def RenderConfig.toRecord (config : RenderConfig) : Document :=
  .object [(some "max_depth", .number (.ofNat config.maxDepth))]

end Metrology.Filter
