import SiteAtlas.Data.Value
import SiteAtlas.Number.IntegerText

/-!
# Writing JSON

The text of a value, two blanks a level, in printable ASCII. An integer can have only so many
digits, and a moment has no text.
-/

namespace SiteAtlas.Data.Json

/-- A code point of four digits as an escape. -/
def codeEscape (n : Nat) : List Char :=
  '\\' :: 'u' :: Text.hexDigits 4 n

section

variable [Host]

/-- A character within quotes, in two halves beyond the basic plane. -/
def writeChar (c : Char) : List Char :=
  if c == '"' then ['\\', '"']
  else if c == '\\' then ['\\', '\\']
  else if c == '\n' then ['\\', 'n']
  else if c == '\r' then ['\\', 'r']
  else if c == '\t' then ['\\', 't']
  else if c == '\x0c' then ['\\', 'f']
  else if c == '\x08' then ['\\', 'b']
  else if 0x20 ≤ c.toNat && c.toNat ≤ 0x7e then [c]
  else if Text.codeOf c < 0x10000 then codeEscape (Text.codeOf c)
  else
    let n := Text.codeOf c - 0x10000
    codeEscape (0xd800 + n / 0x400) ++ codeEscape (0xdc00 + n % 0x400)

/-- A text in quotes. -/
def writeString (s : String) : List Char :=
  '"' :: s.toList.flatMap writeChar ++ ['"']

/-- The text of a number; if not finite, a name. -/
def writeNumber : Number.Binary64 → List Char
  | .nan => "NaN".toList
  | .infinite false => "Infinity".toList
  | .infinite true => "-Infinity".toList
  | x => x.text

/-- A line break and the indentation of a level. -/
def newLine (level : Nat) : List Char :=
  '\n' :: List.replicate (2 * level) ' '

mutual

/-- The text of a value at a level of indentation. -/
def writeAt (level : Nat) : Value → List Char
  | .null => "null".toList
  | .bool true => "true".toList
  | .bool false => "false".toList
  | .int n => intText n
  | .float x => writeNumber x
  | .text s => writeString s
  | .moment m => writeString m.plain
  | .list [] => "[]".toList
  | .list items => '[' :: writeItems (level + 1) items ++ newLine level ++ [']']
  | .table [] => "\x7b\x7d".toList
  | .table entries => '\x7b' :: writeEntries (level + 1) entries ++ newLine level ++ ['\x7d']

/-- Items at a level, each on a line of its own. -/
def writeItems (level : Nat) : List Value → List Char
  | [] => []
  | [v] => newLine level ++ writeAt level v
  | v :: w :: rest => newLine level ++ writeAt level v ++ ',' :: writeItems level (w :: rest)

/-- Entries at a level, each on a line of its own. -/
def writeEntries (level : Nat) : List (String × Value) → List Char
  | [] => []
  | [(k, v)] => newLine level ++ writeString k ++ ": ".toList ++ writeAt level v
  | (k, v) :: e :: rest =>
    newLine level ++ writeString k ++ ": ".toList ++ writeAt level v ++
      ',' :: writeEntries level (e :: rest)

end

/-- The JSON text of a value. -/
def textOf (v : Value) : List Char :=
  writeAt 0 v

end

/-- Why a value cannot be written. -/
inductive WriteError where
  /-- An integer has too many digits. -/
  | tooManyDigits
  /-- There is a moment. -/
  | moment
  deriving DecidableEq

/-- What is said about an error. -/
def WriteError.message : WriteError → String
  | .tooManyDigits => "Exceeds the limit (" ++ toString Number.digitLimit ++
    " digits) for integer " ++
      "string conversion; use sys.set_int_max_str_digits() to increase the limit"
  | .moment => "a moment has no text"

mutual

/-- The first thing in a value that cannot be written. -/
def error? : Value → Option WriteError
  | .int n => if (Nat.toDigits 10 n.natAbs).length ≤ Number.digitLimit then none
      else some .tooManyDigits
  | .moment _ => some .moment
  | .list items => errorInItems? items
  | .table entries => errorInEntries? entries
  | _ => none

/-- The first item that cannot be written. -/
def errorInItems? : List Value → Option WriteError
  | [] => none
  | v :: rest => (error? v).or (errorInItems? rest)

/-- The first entry that cannot be written. -/
def errorInEntries? : List (String × Value) → Option WriteError
  | [] => none
  | (_, v) :: rest => (error? v).or (errorInEntries? rest)

end

/-- Write a value. -/
def write [Host] (v : Value) : Except WriteError (List Char) :=
  match error? v with
  | some e => .error e
  | none => .ok (textOf v)

end SiteAtlas.Data.Json
