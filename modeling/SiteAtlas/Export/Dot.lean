import SiteAtlas.Export.Selection
import SiteAtlas.Text.Utf8

/-!
# Graphs in the DOT language

A selection as a directed graph: a line for each node, labelled with kind and name, and one for each
edge.
-/

namespace SiteAtlas.Dot

/-- One character of a text within quotes. -/
def escapeChar (c : Char) : List Char :=
  if c = '\\' then ['\\', '\\'] else if c = '"' then ['\\', '"'] else [c]

/-- A text within quotes. -/
def escape (s : String) : List Char :=
  s.toList.flatMap escapeChar

/-- A text in quotes. -/
def quote (s : String) : List Char :=
  '"' :: escape s ++ ['"']

/-- The line of a node. -/
def nodeLine (n : Node) : List Char :=
  "  ".toList ++ quote n.id ++ " [label=\"".toList ++ escape n.kind ++ "\\n".toList ++
    escape n.name ++ "\"];".toList

/-- The line of an edge. -/
def edgeLine (e : Edge) : List Char :=
  "  ".toList ++ quote e.source ++ " -> ".toList ++ quote e.target ++ " [label=".toList ++
    quote e.kind.label ++ "];".toList

/-- The lines of a graph. -/
def lines (s : Selection) : List (List Char) :=
  ["digraph PageGraph \x7b".toList, "  rankdir=LR;".toList] ++ s.nodes.map nodeLine ++
    s.edges.map edgeLine ++ ["\x7d".toList]

/-- The text of a graph. -/
def text (s : Selection) : List Char :=
  Text.join ['\n'] (lines s)

/-- Write a graph; one whose texts hold surrogates has no file. -/
def write [Host] (s : Selection) : Except Text.EncodeError (List UInt8) :=
  Text.encode (text s)

end SiteAtlas.Dot
