import SiteAtlas.Console.Emoji

/-!
# Console markup

Tags in square brackets switch styles, and between them stand codes of emoji. A plain console drops
the tags. A backslash escapes what would be read as one.
-/

namespace SiteAtlas.Markup

open Pattern

variable [Host]

/-- What a tag begins with. -/
def tagStart : Pattern :=
  .one fun c => ('a' ≤ c && c ≤ 'z') || c == '#' || c == '/' || c == '@'

/-- A tag after backslashes, captured as 1, with its inside as 2. -/
def tag : Pattern :=
  capture 1 (many (char '\\')) ++ char '[' ++ capture 2 (tagStart ++ few (noneOf "[")) ++ char ']'

/-- A tag that shows itself. -/
def escapeTag (m : Match) : List Char :=
  m.group 1 ++ m.group 1 ++ '\\' :: '[' :: m.group 2 ++ [']']

/-- Escape a text; a single backslash at its end is doubled. -/
def escape (cs : List Char) : List Char :=
  let escaped := tag.replaceAll escapeTag cs
  if "\\".toList.isSuffixOf escaped && !"\\\\".toList.isSuffixOf escaped then escaped ++ ['\\']
  else escaped

/-- A closing tag closes nothing. -/
inductive MarkupError where
  | unopened (tag : String)
  deriving DecidableEq

/-- What is said about an error. -/
def MarkupError.message : MarkupError → String
  | .unopened tag => "closing tag '[" ++ tag ++ "]' doesn't match any open tag"

/-- A part of a marked-up text. -/
inductive Part where
  | shown (cs : List Char)
  | tag (cs : List Char)

/-- The parts of a matched tag; an odd backslash makes the tag show itself. -/
def partsOfTag (m : Match) : List Part :=
  let backslashes := (m.group 1).length
  let slashes := List.replicate (backslashes / 2) '\\'
  if backslashes % 2 = 1 then [.shown slashes, .shown ('[' :: m.group 2 ++ [']'])]
  else [.shown slashes, .tag (m.group 2)]

/-- Take a run of characters between tags together. -/
def addChar (c : Char) : List Part → List Part
  | .shown cs :: rest => .shown (c :: cs) :: rest
  | parts => .shown [c] :: parts

/-- The parts of a marked-up text; shown parts end at tags. -/
def partsOf : List Piece → List Part
  | [] => []
  | .plain c :: rest =>
    match rest with
    | .plain _ :: _ => addChar c (partsOf rest)
    | _ => .shown [c] :: partsOf rest
  | .hit m :: rest => partsOfTag m ++ partsOf rest

/-- Show escaped brackets. -/
def showBrackets : List Char → List Char
  | '\\' :: '[' :: rest => '[' :: showBrackets rest
  | c :: rest => c :: showBrackets rest
  | [] => []

/-- The name in a tag: what is before an equals sign. -/
def tagName (cs : List Char) : List Char :=
  Text.lower (Text.trim (cs.takeWhile (· != '=')))

/-- Close the latest open tag of a name, or the latest at all. -/
def close? (name : List Char) (opened : List (List Char)) : Option (List (List Char)) :=
  if name.isEmpty then
    match opened with
    | [] => none
    | _ :: rest => some rest
  else if opened.contains name then some (opened.erase name) else none

/-- What the parts show, given the open tags, latest first. -/
def showParts (opened : List (List Char)) : List Part → Except MarkupError (List Char)
  | [] => .ok []
  | .shown cs :: rest => (showParts opened rest).map (Console.withEmoji (showBrackets cs) ++ ·)
  | .tag ('/' :: name) :: rest =>
    match close? (tagName name) opened with
    | some opened => showParts opened rest
    | none => .error (.unopened (String.ofList ('/' :: name)))
  | .tag name :: rest => showParts (tagName name :: opened) rest

/-- What a text shows. -/
def shown (cs : List Char) : Except MarkupError (List Char) :=
  if cs.contains '[' then showParts [] (partsOf (tag.pieces cs)) else .ok (Console.withEmoji cs)

end SiteAtlas.Markup
