import SiteAtlas.Console.Line

/-!
# Console tables

A table has a centred title, a heavy head row and a frame. Each column is as wide as its widest
cell, with a blank on either side; if that is too wide, the widest columns give way.
-/

namespace SiteAtlas.Console

open Markup (MarkupError)

variable [Host]

/-- A column of a table. -/
structure Column where
  title : String
  alignment : Alignment := .left

/-- A table of marked-up cells. -/
structure Table where
  title : String
  columns : List Column
  rows : List (List (List Char))

namespace Table

/-- Characters that end a line of a measured text. -/
def isLineEnd (c : Char) : Bool :=
  (10 ≤ c.toNat && c.toNat ≤ 13) || (0x1c ≤ c.toNat && c.toNat ≤ 0x1e) || c.toNat == 0x85 ||
    c.toNat == 0x2028 || c.toNat == 0x2029

/-- The cells of the widest line. -/
def widestLine (cs : List Char) : Nat :=
  ((Text.splitOn '\n' (cs.map fun c => if isLineEnd c then '\n' else c)).map
    Text.cellCount).foldl max 0

/-- Blanks on both sides of a cell. -/
def padding : Nat := 2

/-- The padded width of a column, given the room for all. -/
def columnWidth (room : Nat) (texts : List (List Char)) : Nat :=
  min room ((texts.map widestLine).foldl max 0 + padding)

/-- A quotient rounded to the nearest number, ties to even. -/
def roundedQuotient (a b : Nat) : Nat :=
  let quotient := a / b
  let twice := 2 * (a % b)
  if twice < b || (twice = b && quotient % 2 = 0) then quotient else quotient + 1

/-- Take an excess away from the widest columns as evenly as possible. -/
def reduce (greatest limit : Nat) : Nat → Nat → List Nat → List Nat
  | _, _, [] => []
  | excess, count, width :: rest =>
    if width = greatest then
      let given := min limit (roundedQuotient excess count)
      (width - given) :: reduce greatest limit (excess - given) (count - 1) rest
    else width :: reduce greatest limit excess count rest

/-- The width of columns side by side. -/
def total (widths : List Nat) : Nat :=
  widths.foldl (· + ·) 0

/-- Narrow the widest columns to the next width, until all fit. -/
def collapse (room : Nat) : Nat → List Nat → List Nat
  | 0, widths => widths
  | fuel + 1, widths =>
    if total widths ≤ room then widths
    else
      let greatest := widths.foldl max 0
      let next := (widths.filter (· != greatest)).foldl max 0
      let excess := total widths - room
      collapse room fuel
        (reduce greatest (min excess (greatest - next)) excess (widths.count greatest) widths)

/-- The room for padded columns within the frame. -/
def roomFor (columns : Nat) : Nat :=
  consoleWidth - (columns + 1)

/-- The padded widths of columns, given their texts. -/
def widths (columns : List (List (List Char))) : List Nat :=
  let room := roomFor columns.length
  let natural := columns.map (columnWidth room)
  collapse room (total natural) natural

/-- A frame line: left end, run, crossings, right end. -/
structure Rule where
  left : Char
  along : Char
  crossing : Char
  right : Char

/-- The line above the head. -/
def top : Rule := ⟨'┏', '━', '┳', '┓'⟩

/-- The line below the head. -/
def belowHead : Rule := ⟨'┡', '━', '╇', '┩'⟩

/-- The line at the bottom. -/
def bottom : Rule := ⟨'└', '─', '┴', '┘'⟩

/-- A frame line over columns. -/
def ruleLine (rule : Rule) (widths : List Nat) : List Char :=
  rule.left :: Text.join [rule.crossing] (widths.map fun w => List.replicate w rule.along) ++
    [rule.right]

/-- A line of fields between bars. -/
def rowLine (bar : Char) (fields : List (List Char)) : List Char :=
  bar :: Text.join [bar] (fields.map fun field => ' ' :: field ++ [' ']) ++ [bar]

/-- The lines of a row, as many as its tallest cell has. -/
def rowLines (bar : Char) (columns : List Column) (widths : List Nat) (texts : List (List Char)) :
    List (List Char) :=
  let cells := ((columns.zip widths).zip texts).map fun ((column, width), text) =>
    (width - padding, fieldLines column.alignment (width - padding) text)
  let height := (cells.map (·.2.length)).foldl max 1
  (List.range height).map fun n =>
    rowLine bar (cells.map fun (width, lines) => lines.getD n (blanksOf width))

/-- The lines of a table. -/
def render (t : Table) : Except MarkupError (List (List Char)) := do
  let rows ← t.rows.mapM fun row => row.mapM shownText
  let head := t.columns.map (·.title.toList)
  let widths := widths (t.columns.zipIdx.map fun (column, index) =>
    column.title.toList :: rows.map fun row => row.getD index [])
  let frame := ruleLine top widths
  return [align .center (Text.cellCount frame) t.title.toList, frame] ++
    rowLines '┃' t.columns widths head ++ [ruleLine belowHead widths] ++
    rows.flatMap (rowLines '│' t.columns widths) ++ [ruleLine bottom widths]

end Table

end SiteAtlas.Console
