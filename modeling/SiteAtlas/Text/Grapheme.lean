import SiteAtlas.Text.CellWidth

/-!
# Graphemes

A character that takes cells, with those that combine with it; texts are cut between graphemes only.
-/

namespace SiteAtlas.Text

/-- Characters that are shown as one, and the number of cells that they take. -/
structure Grapheme where
  chars : List Char
  cells : Nat
  deriving DecidableEq

namespace Grapheme

/-- Put characters at the end of a grapheme, which then takes some more cells. -/
def extend (g : Grapheme) (chars : List Char) (cells : Nat := 0) : Grapheme :=
  ⟨g.chars ++ chars, g.cells + cells⟩

/-- The graphemes after an incomplete one. -/
def following (g : Grapheme) (last : Option Char) : List Char → List Grapheme
  | [] => [g]
  | [c] =>
    if c = joiner then [g.extend [c]]
    else if c = colourSelector then [g.extend [c] ((last.map selectedCells).getD 0)]
    else if cellWidth c = 0 then [g.extend [c]]
    else [g, ⟨[c], cellWidth c⟩]
  | c :: d :: rest =>
    if c = joiner then following (g.extend [c, d]) last rest
    else if c = colourSelector then
      let more := (last.map selectedCells).getD 0
      following (g.extend [c] more) (if more = 0 then last else none) (d :: rest)
    else if cellWidth c = 0 then following (g.extend [c]) last (d :: rest)
    else g :: following ⟨[c], cellWidth c⟩ (some c) (d :: rest)

/-- The graphemes of a text. -/
def ofText : List Char → List Grapheme
  | [] => []
  | c :: rest =>
    if c = joiner || c = colourSelector || cellWidth c = 0 then following ⟨[c], 0⟩ none rest
    else following ⟨[c], cellWidth c⟩ (some c) rest

/-- The graphemes that take so many cells; half a wide one is a blank. -/
def take : Nat → List Grapheme → List Char
  | 0, _ => []
  | _ + 1, [] => []
  | n + 1, g :: rest =>
    if g.cells ≤ n + 1 then g.chars ++ take (n + 1 - g.cells) rest else [' ']

/-- Cut graphemes into lines of at most so many cells. -/
def lines (width : Nat) (line : List Char) (cells : Nat) : List Grapheme → List (List Char)
  | [] => if cells = 0 then [] else [line]
  | g :: rest =>
    if width < cells + g.cells then line :: lines width g.chars g.cells rest
    else lines width (line ++ g.chars) (cells + g.cells) rest

end Grapheme

/-- A text made to take so many cells. -/
def fitCells (width : Nat) (cs : List Char) : List Char :=
  if cellCount cs ≤ width then cs ++ List.replicate (width - cellCount cs) ' '
  else Grapheme.take width (Grapheme.ofText cs)

/-- Cut a text into lines of at most so many cells. -/
def chopCells (width : Nat) (cs : List Char) : List (List Char) :=
  Grapheme.lines width [] 0 (Grapheme.ofText cs)

end SiteAtlas.Text
