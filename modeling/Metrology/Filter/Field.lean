import Metrology.Filter.Token

/-!
# Fields and comparisons

The fields of raw data entries that a filter can ask about, by the kind of their
values, and the ways to compare one with a literal.  A field has a name, which
stands in filter text, and a word, which stands in documents.
-/

namespace Metrology.Filter

/-- The fields that hold timestamps. -/
inductive TimeField where
  /-- When the entry was made. -/
  | created
  /-- When the entry was last changed. -/
  | lastModified
deriving DecidableEq, Repr

/-- The fields that hold integers. -/
inductive IntegerField where
  /-- The key of the entry. -/
  | key
  /-- The number of bytes. -/
  | size
deriving DecidableEq, Repr

/-- The fields that hold text. -/
inductive TextField where
  /-- The name of the file. -/
  | fileName
  /-- The type of its content. -/
  | mimeType
  /-- The checksum of its content. -/
  | md5
deriving DecidableEq, Repr

/-- The comparisons of a field with one literal. -/
inductive Comparison where
  /-- Both are the same. -/
  | equal
  /-- They differ. -/
  | notEqual
  /-- The field lies above. -/
  | greater
  /-- The field lies above, or both are the same. -/
  | greaterOrEqual
  /-- The field lies below. -/
  | less
  /-- The field lies below, or both are the same. -/
  | lessOrEqual
deriving DecidableEq, Repr

namespace TimeField

/-- All fields that hold timestamps. -/
def all : List TimeField := [created, lastModified]

/-- The name in filter text. -/
def name : TimeField → String
  | created => "Created"
  | lastModified => "LastModified"

/-- The word in documents. -/
def word : TimeField → String
  | created => "created"
  | lastModified => "last_modified"

/-- The field with the given word. -/
def ofWord? (w : String) : Option TimeField := all.find? fun f => f.word == w

end TimeField

namespace IntegerField

/-- All fields that hold integers. -/
def all : List IntegerField := [key, size]

/-- The name in filter text. -/
def name : IntegerField → String
  | key => "Key"
  | size => "Size"

/-- The word in documents. -/
def word : IntegerField → String
  | key => "key"
  | size => "size"

/-- The field with the given word. -/
def ofWord? (w : String) : Option IntegerField := all.find? fun f => f.word == w

end IntegerField

namespace TextField

/-- All fields that hold text. -/
def all : List TextField := [fileName, mimeType, md5]

/-- The name in filter text. -/
def name : TextField → String
  | fileName => "FileName"
  | mimeType => "MimeType"
  | md5 => "MD5"

/-- The word in documents. -/
def word : TextField → String
  | fileName => "file_name"
  | mimeType => "mime_type"
  | md5 => "md5"

/-- The field with the given word. -/
def ofWord? (w : String) : Option TextField := all.find? fun f => f.word == w

end TextField

namespace Comparison

/-- All comparisons. -/
def all : List Comparison := [equal, notEqual, greater, greaterOrEqual, less, lessOrEqual]

/-- The kind of node that a comparison becomes. -/
def kind : Comparison → TokenKind
  | equal => .equal
  | notEqual => .notEqual
  | greater => .greater
  | greaterOrEqual => .greaterOrEqual
  | less => .less
  | lessOrEqual => .lessOrEqual

/-- The word in documents, which is that of the node. -/
def word (c : Comparison) : String := c.kind.word

/-- The comparison with the given word. -/
def ofWord? (w : String) : Option Comparison := all.find? fun c => c.word == w

end Comparison

end Metrology.Filter
