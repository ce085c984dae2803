import SiteAtlas.Data.Toml.Fault

/-!
# Writing TOML

Scalars come first, then lists of tables, then tables level by level, each under its full name and
after a blank line.
-/

namespace SiteAtlas.Data.Toml

variable [Host]

/-- What is within the quotes of a text. -/
def escapedBody (cs : List Char) : List Char :=
  if Text.quoteFor cs = '"' then cs.flatMap (Text.quotedChar '"')
  else cs.flatMap fun c => if c = '"' then ['\\', '"'] else if c = '\x27' then [c]
    else Text.quotedChar '\x27' c

/-- Split at every escape of two digits. -/
def splitShortEscapes : List Char → List (List Char)
  | [] => [[]]
  | '\\' :: 'x' :: rest => [] :: splitShortEscapes rest
  | c :: rest =>
    match splitShortEscapes rest with
    | [] => [[c]]
    | part :: parts => (c :: part) :: parts

/-- Write two backslashes as one. -/
def halveBackslashes : List Char → List Char
  | '\\' :: '\\' :: rest => '\\' :: halveBackslashes rest
  | c :: rest => c :: halveBackslashes rest
  | [] => []

/-- The number of final backslashes, less one if all are. -/
def finalBackslashes (cs : List Char) : Nat :=
  let count := (cs.reverse.takeWhile (· == '\\')).length
  if count = cs.length then count - 1 else count

/-- What joins two parts around a short escape: a four-digit escape after an odd number of
backslashes. -/
def joiner (before : List Char) : List Char :=
  let endsEscaped := before.getLast? = some '\\'
  if (!endsEscaped) != (finalBackslashes before % 2 == 1) then ['x'] else "u00".toList

/-- Join parts around short escapes; none if nothing is before the last. -/
def joinShortEscapes : List (List Char) → Option (List Char)
  | [] => some []
  | [part] => some part
  | [] :: rest =>
    match rest with
    | [] => some []
    | [_] => none
    | part :: next :: parts =>
      let part := halveBackslashes part
      joinFrom (part ++ joiner part ++ next) parts
  | part :: next :: parts =>
    let part := halveBackslashes part
    joinFrom (part ++ joiner part ++ next) parts
where
  /-- Join more parts to a text that is not empty. -/
  joinFrom (text : List Char) : List (List Char) → Option (List Char)
    | [] => some text
    | next :: parts =>
      let text := halveBackslashes text
      joinFrom (text ++ joiner text ++ next) parts

/-- A text in double quotes. -/
def writeString (s : String) : Except Fault (List Char) :=
  match joinShortEscapes (splitShortEscapes (escapedBody s.toList)) with
  | some body => .ok ('"' :: body ++ ['"'])
  | none => .error .noItem

/-- A decimal exponent without leading zero. -/
def shortExponent : List Char → List Char
  | 'e' :: '+' :: '0' :: rest => 'e' :: '+' :: shortExponent rest
  | 'e' :: '-' :: '0' :: rest => 'e' :: '-' :: shortExponent rest
  | c :: rest => c :: shortExponent rest
  | [] => []

mutual

/-- The text of a value. -/
def writeValue : Value → Except Fault (List Char)
  | .bool true => .ok "true".toList
  | .bool false => .ok "false".toList
  | .int n => .ok (intText n)
  | .float x => .ok (shortExponent x.text)
  | .text s => writeString s
  | .moment m => .ok m.written.toList
  | .list items => (writeItems items).map fun text => '[' :: text ++ [']']
  | .null => .ok []
  | .table entries => (writeKeys entries).map fun text => '[' :: text ++ [']']

/-- Items of an array, each after a blank and before a comma. -/
def writeItems : List Value → Except Fault (List Char)
  | [] => .ok []
  | v :: rest => do return ' ' :: (← writeValue v) ++ ',' :: (← writeItems rest)

/-- The keys of a table in an array. -/
def writeKeys : List (String × Value) → Except Fault (List Char)
  | [] => .ok []
  | (key, _) :: rest => do return ' ' :: (← writeString key) ++ ',' :: (← writeKeys rest)

end

/-- Whether a key needs no quotes. -/
def isPlainKey (key : String) : Bool :=
  let cs := key.toList
  let name := if cs.getLast? = some '\n' then cs.dropLast else cs
  !name.isEmpty && name.all fun c => c.isAlpha || c.isDigit || c == '_' || c == '-'

/-- The text of a key. -/
def writeKey (key : String) : Except Fault (List Char) :=
  if isPlainKey key then .ok key.toList else writeString key

/-- Tables by full name. -/
abbrev Sections := List (List Char × Keyed Value)

/-- The full name of a table within another. -/
def nameWithin (name key : List Char) : List Char :=
  if name.isEmpty then key else name ++ '.' :: key

/-- The line of a header. -/
def headerLine (name : List Char) : List Char :=
  '[' :: name ++ "]\n".toList

/-- Whether a list holds tables. -/
def holdsTable (items : List Value) : Bool :=
  items.any fun v => v.kind == .table

/-- The entries of an item in a list of tables. -/
def entriesOf : Value → Except Fault (Keyed Value)
  | .table entries => .ok entries
  | .list items => if items.isEmpty then .ok [] else .error .keyOfList
  | .text s => if s.isEmpty then .ok [] else .error .keyOfText
  | other => .error (.noItems other.kind)

/-- An assignment, a list of tables, or a table. -/
structure WrittenEntry where
  assignment : List Char := []
  tableList : List Char := []
  tables : Sections := []

mutual

/-- The assignments and lists of a table, and its tables by key. -/
def writeTable : Nat → List Char → Keyed Value → Except Fault (List Char × Sections)
  | 0, _, _ => .ok ([], [])
  | fuel + 1, name, entries => do
    let written ← entries.mapM fun (key, value) => do
      let key ← writeKey key
      match value with
      | .table inner => return { tables := [(key, inner)] }
      | value =>
        match value with
        | .list items =>
          if holdsTable items then
            return { tableList := ← writeTableList fuel (nameWithin name key) items }
        | _ => pure ()
        return ({ assignment := key ++ " = ".toList ++
          (← writeValue value) ++ ['\n'] } : WrittenEntry)
    return (written.flatMap (·.assignment) ++ written.flatMap (·.tableList),
      written.flatMap (·.tables))

/-- The text of a list of tables. -/
def writeTableList : Nat → List Char → List Value → Except Fault (List Char)
  | 0, _, _ => .ok []
  | fuel + 1, name, items => do
    let written ← items.mapM fun item => do
      let (body, tables) ← writeTable fuel name (← entriesOf item)
      let (before, after) := if body.head? = some '[' then ([], body) else (body, [])
      return '[' :: '[' :: name ++ "]]\n".toList ++ before ++ '\n' :: after ++
        (← writeWithin fuel name tables)
    return written.flatten

/-- The tables within a table of a list, level by level. -/
def writeWithin : Nat → List Char → Sections → Except Fault (List Char)
  | 0, _, _ => .ok []
  | _ + 1, _, [] => .ok []
  | fuel + 1, name, tables => do
    let written ← tables.mapM fun (key, table) => do
      let (body, inner) ← writeTable fuel (nameWithin name key) table
      let text := if body.isEmpty then [] else headerLine (nameWithin name key) ++ body
      return (text, inner.map fun (next, table) => (key ++ '.' :: next, table))
    return written.flatMap (·.1) ++ (← writeWithin fuel name (written.flatMap (·.2)))

end

/-- A blank line unless the text is empty or ends with one. -/
def separated (text : List Char) : List Char :=
  if text.isEmpty || "\n\n".toList.isSuffixOf text then text else text ++ ['\n']

/-- Append a table under its full name; tables in it are returned. -/
def appendTable (fuel : Nat) (text name : List Char) (table : Keyed Value) :
    Except Fault (List Char × Sections) := do
  let (body, tables) ← writeTable fuel name table
  let text := if body.isEmpty && !tables.isEmpty then text
    else separated text ++ headerLine name ++ body
  return (text, tables.map fun (key, inner) => (nameWithin name key, inner))

/-- Append the tables of a level, and return those of the next. -/
def appendLevel (fuel : Nat) (text : List Char) : Sections → Except Fault (List Char × Sections)
  | [] => .ok (text, [])
  | (name, table) :: rest => do
    let (text, inner) ← appendTable fuel text name table
    let (text, others) ← appendLevel fuel text rest
    return (text, inner ++ others)

/-- Append the tables of a level and those below. -/
def appendLevels : Nat → List Char → Sections → Except Fault (List Char)
  | 0, text, _ => .ok text
  | _ + 1, text, [] => .ok text
  | fuel + 1, text, tables => do
    let (text, inner) ← appendLevel (fuel + 1) text tables
    appendLevels fuel text inner

mutual

/-- How deeply lists and tables are nested in a value. -/
def depth : Value → Nat
  | .table entries => depthOfEntries entries + 1
  | .list items => depthOfItems items + 1
  | _ => 0

/-- How deeply the items of a list are nested. -/
def depthOfItems : List Value → Nat
  | [] => 0
  | v :: rest => max (depth v) (depthOfItems rest)

/-- How deeply the entries of a table are nested. -/
def depthOfEntries : List (String × Value) → Nat
  | [] => 0
  | (_, v) :: rest => max (depth v) (depthOfEntries rest)

end

/-- The text of a document. -/
def write (top : Keyed Value) : Except Fault (List Char) := do
  let fuel := 3 * depthOfEntries top + 3
  let (text, tables) ← writeTable fuel [] top
  appendLevels fuel text tables

end SiteAtlas.Data.Toml
