import SiteAtlas.Pattern.Matching
import SiteAtlas.Text.Basic

/-!
# Declared routes

Routes declared in a source file, as elements or objects. A table of shapes is run over the text in
order; a route counts once, except that index routes may share the root.
-/

namespace SiteAtlas.Route

open Pattern

/-- A declared route and the component that it renders. -/
structure Declaration where
  route : String
  component : String
  deriving DecidableEq, Inhabited

/-- Where a shape finds the route. -/
inductive RouteSource where
  /-- In the text captured under an index. -/
  | captured (index : Nat)
  /-- The root, as the index of its parent. -/
  | index
  /-- Any route that no other declaration covers. -/
  | rest
  deriving DecidableEq

/-- A shape of route declarations. -/
structure Shape where
  pattern : Pattern
  route : RouteSource
  /-- The index of the captured component. -/
  component : Nat
  /-- Whether the component is given by the file that it is imported from. -/
  fromImport : Bool := false

/-- A quote. -/
def quote : Pattern :=
  oneOf "\"'"

/-- A quoted text, captured under an index. -/
def quotedAs (index : Nat) : Pattern :=
  quote ++ capture index (many1 (noneOf "\"'")) ++ quote

/-- The attribute for a path. -/
def pathAttribute (index : Nat) : Pattern :=
  text "path=" ++ quotedAs index

/-- The field for a path. -/
def pathField (index : Nat) : Pattern :=
  text "path:" ++ blanks ++ quotedAs index

/-- The beginning of an object. -/
def objectStart : Pattern :=
  char '\x7b' ++ blanks

/-- A comma between fields. -/
def comma : Pattern :=
  blanks ++ char ',' ++ blanks

/-- A component element that begins, its name captured under an index. -/
def elementStart (index : Nat) : Pattern :=
  char '<' ++ capture index word

/-- The field for an element. -/
def elementField (index : Nat) : Pattern :=
  text "element:" ++ blanks ++ elementStart index

/-- Anything within a tag. -/
def withinTag : Pattern :=
  noneOf ">"

/-- Anything within braces. -/
def withinBraces : Pattern :=
  noneOf "\x7d"

/-- An element with its path first, up to the brace that closes its component. -/
def taggedClosed : Shape where
  pattern := text "<Route" ++ blanks1 ++ many withinTag ++ pathAttribute 1 ++ many withinTag ++
    text "element=\x7b" ++ elementStart 2 ++ many withinBraces ++ char '\x7d'
  route := .captured 1
  component := 2

/-- An element with its path first, on one line or more. -/
def taggedBroken : Shape where
  pattern := text "<Route" ++ many withinTag ++ optional (char '\n') ++ blanks ++
    pathAttribute 1 ++ many withinTag ++ optional (char '\n') ++ blanks ++ text "element=\x7b" ++
    elementStart 2
  route := .captured 1
  component := 2

/-- An element with its path first, and its component soon after. -/
def taggedNear : Shape where
  pattern := text "<Route" ++ blanks1 ++ few withinTag ++ pathAttribute 1 ++ few withinTag ++
    text "element=\x7b" ++ blanks ++ elementStart 2
  route := .captured 1
  component := 2

/-- An element with its path last. -/
def taggedLast : Shape where
  pattern := text "<Route" ++ blanks1 ++ few withinTag ++ text "element=\x7b" ++ blanks ++
    elementStart 1 ++ many withinBraces ++ char '\x7d' ++ few withinTag ++ pathAttribute 2
  route := .captured 2
  component := 1

/-- An object with an element. -/
def fieldElement : Shape where
  pattern := objectStart ++ pathField 1 ++ comma ++ elementField 2
  route := .captured 1
  component := 2

/-- An object with its path after its element. -/
def fieldLast : Shape where
  pattern := objectStart ++ elementField 1 ++ many withinBraces ++ optional (char '/') ++
    blanks ++ char '>' ++ comma ++ pathField 2
  route := .captured 2
  component := 1

/-- An object that imports its component when it is needed. -/
def fieldLazy : Shape where
  pattern := objectStart ++ pathField 1 ++ many withinBraces ++ text "lazy:" ++ blanks ++
    text "()" ++ blanks ++ text "=>" ++ blanks ++ text "import" ++ blanks ++ char '(' ++
    blanks ++ quotedAs 2 ++ blanks ++ char ')'
  route := .captured 1
  component := 2
  fromImport := true

/-- An object with a component. -/
def fieldComponent : Shape where
  pattern := objectStart ++ pathField 1 ++ many withinBraces ++ text "Component:" ++ blanks ++
    capture 2 word
  route := .captured 1
  component := 2

/-- An object of an index route. -/
def fieldIndex : Shape where
  pattern := objectStart ++ text "index:" ++ blanks ++ text "true" ++ comma ++ elementField 1
  route := .index
  component := 1

/-- An object for the routes that are left. -/
def fieldRest : Shape where
  pattern := objectStart ++ text "path:" ++ blanks ++ quote ++ char '*' ++ quote ++ comma ++
    elementField 1
  route := .rest
  component := 1

/-- All shapes, in order. -/
def shapes : List Shape :=
  [taggedClosed, taggedBroken, taggedNear, taggedLast, fieldElement, fieldLast, fieldLazy,
   fieldComponent, fieldIndex, fieldRest]

/-- A route with a slash before it. -/
def rooted (route : List Char) : List Char :=
  if "/".toList.isPrefixOf route then route else '/' :: route

/-- A source suffix. -/
def importedSuffix : Pattern :=
  char '.' ++ .either (text "ts" ++ optional (char 'x')) (text "js" ++ optional (char 'x')) ++
    lastLineEnd

/-- The component that an import names. -/
def componentOfImport (source : List Char) : List Char :=
  importedSuffix.eraseAll (Text.afterLast '/' source)

/-- The declaration of a match. -/
def Shape.declaration (shape : Shape) (m : Match) : Declaration :=
  let route := match shape.route with
    | .captured index => rooted (m.group index)
    | .index => ['/']
    | .rest => "/*".toList
  let component := m.group shape.component
  ⟨String.ofList route,
    String.ofList (if shape.fromImport then componentOfImport component else component)⟩

/-- All matches of a shape as declarations, with whether they are index routes. -/
def Shape.declarations (shape : Shape) (content : List Char) : List (Declaration × Bool) :=
  (shape.pattern.findAll content).map fun m => (shape.declaration m, shape.route == .index)

/-- Keep a declaration unless its route is taken; an index needs its component. -/
def keepDeclaration (kept : List Declaration) (new : Declaration × Bool) : List Declaration :=
  let (declaration, isIndex) := new
  if (!isIndex && kept.any (·.route == declaration.route)) || kept.contains declaration then kept
  else kept ++ [declaration]

/-- The declarations of a source. -/
def declarations (content : List Char) : List Declaration :=
  (shapes.flatMap (·.declarations content)).foldl keepDeclaration []

end SiteAtlas.Route
