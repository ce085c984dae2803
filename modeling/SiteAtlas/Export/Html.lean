import SiteAtlas.Export.Selection
import SiteAtlas.Text.Utf8

/-!
# Graphs as hypertext

A selection as a page: for each kind of node a section with its nodes and where their edges lead to.
-/

namespace SiteAtlas.Html

/-- One character, safe in elements and quoted attributes. -/
def escapeChar (c : Char) : List Char :=
  if c = '&' then "&amp;".toList
  else if c = '<' then "&lt;".toList
  else if c = '>' then "&gt;".toList
  else if c = '"' then "&quot;".toList
  else if c = '\x27' then "&#x27;".toList
  else [c]

/-- A text, safe within elements and quoted attributes. -/
def escape (s : String) : List Char :=
  s.toList.flatMap escapeChar

/-- The kinds of nodes in the order of their sections. -/
def kindOrder : List String :=
  ["page", "layout", "route", "loading", "error", "not-found", "template",
   "component", "hook", "context", "utility", "store", "action"]

/-- The place of a kind; unlisted kinds come last. -/
def rank (kind : String) : Nat :=
  kindOrder.idxOf kind

/-- The order of sections. -/
def kindLE (a b : String) : Bool :=
  rank a < rank b || (rank a == rank b && decide (a ≤ b))

/-- The kinds of nodes, in the order of sections. -/
def kinds (nodes : List Node) : List String :=
  (Text.unique (nodes.map (·.kind))).mergeSort kindLE

/-- The name of the node with an identifier. -/
def nameOf (nodes : List Node) (id : String) : String :=
  ((nodes.find? (·.id == id)).map (·.name)).getD ""

/-- The item of an edge: its kind and its end's name. -/
def edgeItem (nodes : List Node) (e : Edge) : List Char :=
  "<li>".toList ++ escape e.kind.label ++ " &rarr; ".toList ++ escape (nameOf nodes e.target) ++
    "</li>".toList

/-- The list of edges from a node, if any. -/
def edgeList (s : Selection) (id : String) : List Char :=
  let outgoing := s.edges.filter (·.source == id)
  if outgoing.isEmpty then []
  else "<ul>".toList ++ outgoing.flatMap (edgeItem s.nodes) ++ "</ul>".toList

/-- The item of a node, with the edges that begin there. -/
def nodeItem (s : Selection) (n : Node) : List Char :=
  "<li><span title=\"".toList ++ escape n.filePath ++ "\">".toList ++ escape n.kind ++
    ": ".toList ++ escape n.name ++ "</span>".toList ++ edgeList s n.id ++ "</li>".toList

/-- The heading of a section, with the number of its nodes. -/
def heading (kind : String) (count : Nat) : List Char :=
  "<h2>".toList ++ escape kind ++ " (".toList ++ Nat.toDigits 10 count ++ ")</h2>".toList

/-- The section of a kind. -/
def section' (s : Selection) (kind : String) : List Char :=
  let members := s.nodes.filter (·.kind == kind)
  heading kind members.length ++ "\n<ul>".toList ++ members.flatMap (nodeItem s) ++ "</ul>".toList

/-- The lines before the sections. -/
def opening (c : Catalog) : List (List Char) :=
  ["<!doctype html>".toList,
   "<html><head><meta charset=\"utf-8\" /><title>PageGraph Export</title>".toList,
   ("<style>body \x7b font-family: monospace; margin: 20px; \x7d " ++
     "li > ul \x7b color: #555; \x7d</style>").toList,
   "</head><body>".toList,
   "<h1>PageGraph: ".toList ++ escape c.projectName ++ "</h1>".toList,
   "<p>".toList ++ escape c.framework.label ++ " / ".toList ++ escape c.router.label ++
     "</p>".toList]

/-- The page of a catalog and a selection from its graph. -/
def text (c : Catalog) (s : Selection) : List Char :=
  Text.join ['\n'] (opening c ++ (kinds s.nodes).map (section' s) ++ ["</body></html>".toList, []])

/-- Write a page; one whose texts hold surrogates has no file. -/
def write [Host] (c : Catalog) (s : Selection) : Except Text.EncodeError (List UInt8) :=
  Text.encode (text c s)

end SiteAtlas.Html
