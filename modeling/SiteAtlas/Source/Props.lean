import SiteAtlas.Keyed
import SiteAtlas.Pattern.Matching
import SiteAtlas.Text.Basic

/-!
# Component properties

Properties are declared in a type literal, found by the component's name, with members separated by
semicolons, line breaks and commas outside brackets. Defaults come from the parameter list.
-/

namespace SiteAtlas.Source

/-- A declared property. -/
structure Property where
  name : String
  type : String
  required : Bool
  defaultValue : Option String := none
  deriving DecidableEq, Inhabited

namespace Props

open Pattern

/-- How deep brackets are open, and which character came last. -/
structure SplitState where
  depth : Nat
  last : Option Char

/-- The bracket depth after a character; arrows close nothing. -/
def SplitState.depthAfter (s : SplitState) (c : Char) : Nat :=
  if c == '(' || c == '[' || c == '<' then s.depth + 1
  else if c == ')' || c == ']' || (c == '>' && s.last != some '=') then s.depth - 1
  else s.depth

/-- Whether a character ends a member at a bracket depth. -/
def isSeparator (depth : Nat) (c : Char) : Bool :=
  c == ';' || c == '\n' || (c == ',' && depth == 0)

/-- Cut a type literal into its members, blank ones included. -/
def cutMembers (s : SplitState) : List Char → List (List Char)
  | [] => [[]]
  | c :: rest =>
    let depth := s.depthAfter c
    let parts := cutMembers ⟨depth, some c⟩ rest
    if isSeparator depth c then [] :: parts
    else match parts with
      | [] => [[c]]
      | part :: others => (c :: part) :: others

/-- The members of a type literal that are not blank. -/
def splitMembers (body : List Char) : List (List Char) :=
  (cutMembers ⟨0, none⟩ body).filter (!Text.isAllBlank ·)

/-- The text in braces that follows, captured under an index. -/
def braces (index : Nat) (inside : Pattern) : Pattern :=
  char '\x7b' ++ capture index inside ++ char '\x7d'

/-- Anything up to a brace. -/
def untilBrace : Pattern :=
  noneOf "\x7d"

/-- An interface of a given name with its body captured as 1. -/
def interfaceNamed (name : List Char) : Pattern :=
  text "interface" ++ blanks1 ++ chars name ++ blanks ++
    optional (text "extends" ++ many1 (noneOf "\x7b")) ++ braces 1 (many1 untilBrace)

/-- A type alias of a given name with its body captured as 1. -/
def aliasNamed (name : List Char) : Pattern :=
  text "type" ++ blanks1 ++ chars name ++ blanks ++ char '=' ++ blanks ++
    braces 1 (many1 untilBrace)

/-- A function of a given name whose parameter has a type literal, captured as 1. -/
def inlineTyped (name : List Char) : Pattern :=
  text "function" ++ blanks1 ++ chars name ++ blanks ++ char '(' ++ blanks ++
    braces 2 (many1 untilBrace) ++ blanks ++ char ':' ++ blanks ++ braces 1 (many1 untilBrace)

/-- Where the properties of a component may be declared, in order of precedence. -/
def declarations (name : List Char) : List Pattern :=
  [interfaceNamed (name ++ "Props".toList), aliasNamed (name ++ "Props".toList), inlineTyped name,
   interfaceNamed "Props".toList, aliasNamed "Props".toList]

/-- The body of the first declaration that is not blank. -/
def body? (content name : List Char) : Option (List Char) :=
  (declarations name).findSome? fun form =>
    ((form.find? content).map (·.group 1)).filter (!Text.isAllBlank ·)

/-- The parameter list that takes properties apart, captured as 1. -/
def parameters (name : List Char) : Pattern :=
  .either (text "function" ++ blanks1 ++ chars name ++ blanks)
      (texts ["const", "let"] ++ blanks1 ++ chars name ++ blanks ++
        optional (char ':' ++ many1 (noneOf "=")) ++ char '=' ++ blanks ++
        optional (many1 (.one fun c => Text.isWord c || c == '.') ++ blanks ++
          optional (char '<' ++ many (noneOf ">") ++ char '>') ++ blanks ++ char '(' ++ blanks) ++
        optional (text "async" ++ blanks)) ++
    char '(' ++ blanks ++ braces 1 (many untilBrace)

/-- A destructured name, captured as 1, with its default value, captured as 2. -/
def defaultEntry : Pattern :=
  textStart ++ blanks ++ capture 1 word ++ blanks ++
    optional (char ':' ++ blanks ++ word ++ blanks) ++ char '=' ++ blanks ++
    capture 2 (few1 any) ++ blanks ++ lastLineEnd

/-- Default values by name. -/
def defaults (content name : List Char) : Keyed String :=
  match (parameters name).find? content with
  | none => []
  | some m => (splitMembers (m.group 1)).foldl (fun table entry =>
      match defaultEntry.matchStart? entry with
      | some d => table.put (d.groupString 1) (d.groupString 2)
      | none => table) []

/-- A property declaration: name as 1, mark as 2, type as 3. -/
def propertyLine : Pattern :=
  textStart ++ blanks ++ capture 1 word ++ capture 2 (optional (char '?')) ++ char ':' ++ blanks ++
    capture 3 (few1 dot) ++ blanks ++ lastLineEnd

/-- What comments begin with. -/
def commentStarts : List String :=
  ["//", "/*", "*"]

/-- Whether a member is a comment. -/
def isComment (member : List Char) : Bool :=
  commentStarts.any fun start => start.toList.isPrefixOf (Text.trim member)

/-- The property that a member declares, given the default values. -/
def property? (table : Keyed String) (member : List Char) : Option Property :=
  if isComment member then none
  else (propertyLine.matchStart? member).map fun m =>
    { name := m.groupString 1, type := String.ofList (Text.trim (m.group 3))
      required := (m.group 2).isEmpty
      defaultValue := table.get? (m.groupString 1) }

/-- The declared properties of the component with a given name. -/
def extract (content name : List Char) : List Property :=
  match body? content name with
  | none => []
  | some body => (splitMembers body).filterMap (property? (defaults content name))

end Props

end SiteAtlas.Source
