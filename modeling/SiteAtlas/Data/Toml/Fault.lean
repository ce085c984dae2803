import SiteAtlas.Data.Value

/-!
# Faults of TOML texts

A malformed text may go unnoticed until a value is asked for something that it does not have; such a
fault is reported by what was asked for. Settings are kept with any library that reads and writes
TOML.
-/

namespace SiteAtlas.Data

/-- The kinds of values. -/
inductive ValueKind where
  | null
  | bool
  | int
  | float
  | text
  | moment (kind : MomentKind)
  | list
  | table
  deriving DecidableEq

/-- The kind of a value. -/
def Value.kind : Value → ValueKind
  | .null => .null
  | .bool _ => .bool
  | .int _ => .int
  | .float _ => .float
  | .text _ => .text
  | .moment m => .moment m.kind
  | .list _ => .list
  | .table _ => .table

/-- The name of a kind. -/
def ValueKind.label : ValueKind → String
  | .null => "NoneType"
  | .bool => "bool"
  | .int => "int"
  | .float => "float"
  | .text => "str"
  | .moment .date => "datetime.date"
  | .moment .time => "datetime.time"
  | .moment .dateTime => "datetime.datetime"
  | .list => "list"
  | .table => "dict"

namespace Toml

/-- Why a text cannot be read or written. -/
inductive Fault where
  /-- The text is malformed. -/
  | malformed
  /-- A list is asked for an item that it does not have. -/
  | noItem
  /-- A text is asked for a character that it does not have. -/
  | noChar
  /-- A value that holds nothing is asked for a part. -/
  | noParts (kind : ValueKind)
  /-- A value that holds nothing is searched for a key. -/
  | noKeys (kind : ValueKind)
  /-- A value that holds nothing is asked for all that it holds. -/
  | noItems (kind : ValueKind)
  /-- A key is to be put into a text. -/
  | fixedText
  | keyOfText
  | keyOfList
  /-- A table is to be added to a value that is no list. -/
  | noList (kind : ValueKind)
  /-- An escape gives a number that is far beyond all code points. -/
  | codeTooLarge
  /-- Something else is wrong. -/
  | other (message : String)
  deriving DecidableEq

/-- What is said about a fault. -/
def Fault.message : Fault → String
  | .malformed => "the text is malformed"
  | .noItem => "list index out of range"
  | .noChar => "string index out of range"
  | .noParts kind => "'" ++ kind.label ++ "' object is not subscriptable"
  | .noKeys kind => "argument of type '" ++ kind.label ++ "' is not iterable"
  | .noItems kind => "'" ++ kind.label ++ "' object is not iterable"
  | .fixedText => "'str' object does not support item assignment"
  | .keyOfText => "string indices must be integers, not 'str'"
  | .keyOfList => "list indices must be integers or slices, not str"
  | .noList kind => "'" ++ kind.label ++ "' object has no attribute 'append'"
  | .codeTooLarge => "Python int too large to convert to C int"
  | .other message => message

/-- A library that reads and writes documents. -/
structure Library where
  /-- The document that a text holds. -/
  read : List Char → Except Fault (Keyed Value)
  /-- The text of a document. -/
  write : Keyed Value → Except Fault (List Char)

end Toml

end SiteAtlas.Data
