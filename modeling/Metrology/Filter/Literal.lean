/-!
# Literals

A literal in filter text stands in single quotes, and a quote inside it is written
twice.  The null literal is a word without quotes.

`scan` goes the other way.  It reads the literals of a text from left to right and
knows nothing of what stands between them.
-/

namespace Metrology.Filter.Literal

/-- The mark at both ends of a literal. -/
def quote : Char := '\''

/-- The given characters with every quote written twice. -/
def doubleQuotes : List Char → List Char
  | [] => []
  | c :: cs => if c = quote then quote :: quote :: doubleQuotes cs else c :: doubleQuotes cs

/-- A text in quotes. -/
def enclose (text : String) : List Char := quote :: (doubleQuotes text.toList ++ [quote])

/-- The literal of an optional text. -/
def write : Option String → List Char
  | some text => enclose text
  | none => ['n', 'u', 'l', 'l']

/-- The literals in quotes of a text, in order.  With `open?` the text begins within a
literal, whose characters so far are given, the last one first.  A text that ends
within a literal has none. -/
def scanFrom : (open? : Option (List Char)) → List Char → Option (List String)
  | none, [] => some []
  | some _, [] => none
  | none, c :: cs => if c = quote then scanFrom (some []) cs else scanFrom none cs
  | some read, [c] => if c = quote then some [String.ofList read.reverse] else none
  | some read, c :: d :: cs =>
    if c = quote then
      if d = quote then scanFrom (some (quote :: read)) cs
      else (scanFrom none (d :: cs)).map (String.ofList read.reverse :: ·)
    else scanFrom (some (c :: read)) (d :: cs)

/-- The literals in quotes of a text, in order. -/
def scan (text : String) : Option (List String) := scanFrom none text.toList

end Metrology.Filter.Literal
