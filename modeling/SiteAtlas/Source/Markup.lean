import SiteAtlas.Pattern.Matching
import SiteAtlas.Text.Basic

/-!
# Markup in sources

A guess whether a source renders markup. Structural signals decide first: returned markup, and
elements created by call. Angle brackets of type arguments alone render nothing.
-/

namespace SiteAtlas.Source.Markup

open Pattern

/-- The library that renders markup is imported under its name or by members. -/
def libraryImport : Pattern :=
  text "import" ++ blanks1 ++
    .either (text "React") (char '\x7b' ++ many (noneOf "\x7d") ++ char '\x7d') ++
    blanks1 ++ text "from" ++ blanks1 ++ oneOf "'\"" ++ text "react" ++ oneOf "'\""

/-- A comment that names the function for markup. -/
def pragma : Pattern :=
  text "/*" ++ optional (char '*') ++ blanks ++ text "@jsx" ++ blank

/-- The beginning of a component element or of a fragment. -/
def elementStart : Pattern :=
  char '<' ++ .either capital (char '>')

/-- A returned element. -/
def returnedElement : Pattern :=
  text "return" ++ blanks ++ char '(' ++ blanks ++ elementStart

/-- The name of a plain tag. -/
def intrinsicTag : Pattern :=
  .one Char.isLower ++ many (.one fun c => Text.isWord c || c == '.' || c == '-')

/-- An element of the markup language itself is returned; its tag is captured as 1. -/
def returnedIntrinsic : Pattern :=
  text "return" ++ blanks ++ char '(' ++ blanks ++ char '<' ++ capture 1 intrinsicTag ++
    .one fun c => Text.isBlank c || c == '>' || c == '/'

/-- An element after an arrow. -/
def arrowElement : Pattern :=
  text "=>" ++ blanks ++ optional (char '(') ++ blanks ++ elementStart

/-- An element created by call. -/
def createdElement : Pattern :=
  text "React.createElement" ++ blanks ++ char '('

/-- A component that forwards a reference. -/
def forwardedReference : Pattern :=
  text "forwardRef" ++ blanks ++ char '(' ++ many (noneOf ")") ++ char ')' ++ blanks ++
    .either (text "=>") (char '\x7b')

/-- An element that is assigned. -/
def assignedElement : Pattern :=
  texts ["const", "let", "var"] ++ blanks1 ++ word ++ blanks ++ char '=' ++ blanks ++ char '<' ++
    capital

/-- A component name after an opening angle bracket. -/
def componentTag : Pattern :=
  char '<' ++ capital ++ many wordChar

/-- An element takes its properties from an object. -/
def spreadProperties : Pattern :=
  componentTag ++ many (noneOf ">") ++ text "\x7b..." ++ word ++ char '\x7d'

/-- A list of type arguments. -/
def typeArguments : Pattern :=
  componentTag ++ many (char ',' ++ blanks ++ capital ++ many wordChar) ++ char '>'

/-- The start of a component's element. -/
def componentElement : Pattern :=
  componentTag ++ .one fun c => Text.isBlank c || c == '>' || c == '/'

/-- A string. -/
def stringLiteral : Pattern :=
  capture 1 (oneOf "'\"`") ++
    many (.either (.notAhead (.again 1) ++ noneOf "\\") (char '\\' ++ dot)) ++ .again 1

/-- An angle bracket before a capital. -/
def componentTagStart : Pattern :=
  char '<' ++ capital

/-- The closing tag of an element. -/
def closingTag (tag : List Char) : Pattern :=
  text "</" ++ chars tag ++ blanks ++ char '>'

/-- A tag that closes itself. -/
def selfClosingTag (tag : List Char) : Pattern :=
  char '<' ++ chars tag ++ wordEdge ++ many (noneOf ">") ++ text "/>"

/-- An element of the markup language itself is returned and closed somewhere. -/
def returnsIntrinsic (content : List Char) : Bool :=
  (returnedIntrinsic.findAll content).any fun m =>
    (closingTag (m.group 1)).occursIn content || (selfClosingTag (m.group 1)).occursIn content

/-- Whether markup is returned. -/
def returnsMarkup (content : List Char) : Bool :=
  returnedElement.occursIn content || returnsIntrinsic content

/-- One of the signals that decide on their own. -/
def isStructural (content : List Char) : Bool :=
  returnsMarkup content || arrowElement.occursIn content || createdElement.occursIn content

/-- Angle brackets hold type arguments and no opening tag. -/
def onlyTypeArguments (content : List Char) : Bool :=
  typeArguments.occursIn content && !componentElement.occursIn content

/-- A component tag begins outside of string literals. -/
def tagInCode (content : List Char) : Bool :=
  componentTagStart.occursIn (stringLiteral.replaceAll (fun _ => "\"\"".toList) content)

/-- Whether a source renders markup. -/
def isRendered (content : List Char) : Bool :=
  if !content.contains '<' then false
  else if onlyTypeArguments content && !isStructural content then false
  else isStructural content || forwardedReference.occursIn content ||
    assignedElement.occursIn content || (libraryImport.occursIn content && tagInCode content) ||
    pragma.occursIn content || spreadProperties.occursIn content

end SiteAtlas.Source.Markup
