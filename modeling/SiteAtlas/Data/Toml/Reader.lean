import SiteAtlas.Data.Toml.Header
import SiteAtlas.Data.Toml.Writer

/-!
# Reading TOML

A row of headers and assignments. Assignments go to the table of the header before them.
-/

namespace SiteAtlas.Data.Toml

/-- A string of several lines that is not closed yet. -/
structure OpenText where
  key : String
  text : List Char
  /-- A backslash took away the last line break. -/
  joined : Bool

/-- What has been read so far. -/
structure Document where
  top : Value := .table []
  /-- The table that assignments go to. -/
  path : List PathStep := []
  /-- Names of tables that are only implied. -/
  implied : List String := []
  opened : Option OpenText := none

namespace Document

/-- Change the open table. -/
def change {α : Type} (d : Document) (f : Value → Except Fault (Value × α)) :
    Except Fault (Document × α) := do
  let (top, result) ← update f d.path d.top
  return ({ d with top }, result)

/-- A string of several lines after one of them. -/
def openedAs (key : String) (text : List Char) : OpenText :=
  if endsEscaped text then ⟨key, text.dropLast, true⟩ else ⟨key, text ++ ['\n'], false⟩

/-- Whether a line closes a string, or its array. -/
def closes (text line : List Char) : Except Fault Bool :=
  match text.head?, line.getLast? with
  | some '[', none => .error .noChar
  | some '[', some c => .ok (c = ']')
  | some quote, _ => .ok (line.reverse.take 3 == [quote, quote, quote])
  | none, _ => .ok false

/-- Read a further line of a string of several lines. -/
def readMore (d : Document) (o : OpenText) (line : List Char) : Except Fault Document := do
  let text := o.text ++ line
  if ← closes text line then
    let v ← readValue (fuelFor text) true text
    let (d, _) ← d.change fun
      | .table entries => .ok (.table (Keyed.put entries o.key v), ())
      | _ => .error .malformed
    return { d with opened := none }
  else return { d with opened := some (openedAs o.key text) }

/-- Open the table of a header. -/
def readHeaderLine (d : Document) (cs : List Char) : Except Fault Document := do
  let inList := cs.head? = some '['
  let names ← if inList then readHeader "]]" cs.tail else readHeader "]" cs
  let opened ← openTable inList names d.implied d.top
  return { d with top := opened.node, path := opened.path, implied := opened.implied }

/-- Read a line that begins a header or an assignment. -/
def readStart (d : Document) (line : List Char) : Except Fault Document :=
  match line with
  | [] => .ok d
  | ['['] => .error .malformed
  | '[' :: rest => d.readHeaderLine rest
  | c :: rest =>
    if c = '\x7b' then
      if (c :: rest).getLast? = some '\x7d' then do
        let (d, _) ← d.change fun node => (readTable (fuelFor line) line node).map (·, ())
        return d
      else .error .malformed
    else if line.contains '=' then do
      let (d, opened) ← d.change (readInto (fuelFor line) line)
      return { d with opened := opened.map fun (key, text) => openedAs key text }
    else .ok d

/-- Read a line. -/
def readLine (d : Document) (line : List Char) : Except Fault Document :=
  match d.opened with
  | none => d.readStart (Text.trim line)
  | some o =>
    let line := if o.joined || !o.text.contains '\n' then Text.trim line else line
    if line.isEmpty && o.joined then .ok d else d.readMore o line

end Document

/-- The document that a text holds. -/
def read (cs : List Char) : Except Fault (Keyed Value) := do
  let d ← (← lines cs).foldlM Document.readLine {}
  match d.top with
  | .table entries => return entries
  | _ => .error .malformed

/-- The library of this program. -/
def library [Host] : Library :=
  ⟨read, write⟩

end SiteAtlas.Data.Toml
