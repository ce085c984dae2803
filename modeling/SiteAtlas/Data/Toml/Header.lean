import SiteAtlas.Data.Toml.Assignment

/-!
# Headers of TOML

A header opens a table by the names on the way to it, once, unless the table was only implied.
Double brackets add a table to a list; a name of a list means its last table.
-/

namespace SiteAtlas.Data.Toml

/-- Whether a table name may have a character without quotes. -/
def isNameChar (c : Char) : Bool :=
  c.isAlpha || c.isDigit || c == '_' || c == '-'

/-- Whether a name in quotes is closed. -/
def isClosedName (name : List Char) : Bool :=
  name.length > 1 && name.head? == name.getLast?

/-- A name in quotes: parts are joined until it is closed. -/
def quotedName (name : List Char) : List (List Char) → Except Fault (List Char × List (List Char))
  | [] =>
    let closed := Text.trim name
    if isClosedName closed then .ok (inner closed, []) else .error .malformed
  | next :: rest =>
    let closed := Text.trim name
    if isClosedName closed then .ok (inner closed, next :: rest)
    else quotedName (name ++ '.' :: next) rest

/-- The names of a header, given its parts between dots. -/
def readNames : Nat → List (List Char) → Except Fault (List String)
  | fuel + 1, part :: rest =>
    let name := Text.trim part
    if (name.head?.map isQuote).getD false then do
      let (name, rest) ← quotedName name rest
      return String.ofList name :: (← readNames fuel rest)
    else if !name.isEmpty && name.all isNameChar then do
      return String.ofList name :: (← readNames fuel rest)
    else .error .malformed
  | _, _ => .ok []

/-- The names of a header up to what closes it. -/
def readHeader (closing : String) (cs : List Char) : Except Fault (List String) :=
  let count := firstSeparator closing cs
  let parts := Text.splitAtMost closing count cs
  if parts.length < count + 1 || !Text.isAllBlank (parts.getLastD []) then .error .malformed
  else
    let names := Text.splitOn '.' (Text.join closing.toList parts.dropLast)
    readNames names.length names

/-- A step on the way to a table. -/
inductive PathStep where
  | key (name : String)
  /-- To the last item of a list. -/
  | last
  deriving DecidableEq

/-- Change the value at the end of a path. -/
def update {α : Type} (change : Value → Except Fault (Value × α)) :
    List PathStep → Value → Except Fault (Value × α)
  | [], node => change node
  | .key name :: path, .table entries =>
    match Keyed.get? entries name with
    | some child => do
      let (child, result) ← update change path child
      return (.table (Keyed.put entries name child), result)
    | none => .error .malformed
  | .last :: path, .list items =>
    match items.getLast? with
    | some child => do
      let (child, result) ← update change path child
      return (.list (items.dropLast ++ [child]), result)
    | none => .error .malformed
  | _, _ => .error .malformed

/-- What a header has opened: the value, the path to the table, and names of tables that are only
implied. -/
structure Opened where
  node : Value
  path : List PathStep
  implied : List String

/-- A new table, perhaps in a list. -/
def newTable (inList : Bool) : Value :=
  if inList then .list [.table []] else .table []

/-- What a value that is no table does with a name. -/
def refuse (name : String) : Value → Fault
  | .text s => if Text.stringContains name s then .keyOfText else .fixedText
  | .list _ => .keyOfList
  | other => .noKeys other.kind

/-- The child of a table that a name leads to, perhaps new. -/
def childFor (inList isLast : Bool) (name : String) (entries : Keyed Value)
    (implied : List String) : Except Fault (Value × List String) :=
  match Keyed.get? entries name with
  | none => .ok (newTable (inList && isLast), if isLast then implied else implied ++ [name])
  | some child =>
    if !isLast then .ok (child, implied)
    else if implied.contains name then
      if inList then .error .malformed else .ok (child, implied.erase name)
    else if inList then
      match child with
      | .list items => .ok (.list (items ++ [.table []]), implied)
      | other => .error (.noList other.kind)
    else .error .malformed

/-- Go on within a value, if a list within its last item. -/
def enter (inList : Bool) (go : Value → Except Fault Opened) (child : Value) :
    Except Fault Opened :=
  if !inList then go child
  else match child with
    | .table entries => go (.table entries)
    | .list items =>
      match items.getLast? with
      | none => .error .noItem
      | some last => do
        let opened ← go last
        return { opened with
          node := .list (items.dropLast ++ [opened.node]), path := .last :: opened.path }
    | .text s =>
      match s.toList.getLast? with
      | none => .error .noChar
      | some c => go (.text (String.singleton c))
    | other => .error (.noParts other.kind)

/-- Open the table at a row of names within a value. -/
def openTable (inList : Bool) : List String → List String → Value → Except Fault Opened
  | [], implied, node => .ok ⟨node, [], implied⟩
  | name :: names, implied, node =>
    if name.isEmpty then .error .malformed
    else match node with
      | .table entries => do
        let (child, implied) ← childFor inList names.isEmpty name entries implied
        let opened ← enter inList (openTable inList names implied) child
        return { opened with
          node := .table (Keyed.put entries name opened.node), path := .key name :: opened.path }
      | .list items =>
        match items.getLast? with
        | none => .error .noItem
        | some (.table entries) => do
          let child := (Keyed.get? entries name).getD (newTable (inList && names.isEmpty))
          let opened ← enter inList (openTable inList names implied) child
          let last := Value.table (Keyed.put entries name opened.node)
          return { opened with
            node := .list (items.dropLast ++ [last]), path := .last :: .key name :: opened.path }
        | some other => .error (refuse name other)
      | .text s =>
        match s.toList.getLast? with
        | none => .error .noChar
        | some c => .error (refuse name (.text (String.singleton c)))
      | other => .error (.noParts other.kind)

end SiteAtlas.Data.Toml
