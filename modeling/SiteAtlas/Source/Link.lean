import SiteAtlas.Pattern.Matching
import SiteAtlas.Text.Basic

/-!
# Links

Link elements and navigation calls whose target begins with a slash and is not put together from
parts.
-/

namespace SiteAtlas.Source.Link

open Pattern

/-- A link element with its target in an attribute, captured as 1. -/
def element (tag property : String) : Pattern :=
  text tag ++ many (noneOf ">") ++ text property ++ oneOf "\"'\x7b" ++
    capture 1 (many1 (noneOf "\"'\x7d`")) ++ oneOf "\"'\x7d`"

/-- A navigation call with its target as the only argument, captured as 1. -/
def call (function : String) : Pattern :=
  text function ++ char '(' ++ blanks ++ oneOf "'\"`" ++ capture 1 (many1 (noneOf "'\"`")) ++
    oneOf "'\"`" ++ blanks ++ char ')'

/-- All forms of links. -/
def forms : List Pattern :=
  [element "<Link" "href=", element "<NavLink" "to=", element "<Link" "to=",
   call "router.push", call "router.replace", call "navigate", call "redirect",
   call "permanentRedirect"]

/-- Whether a target is a fixed place within the site. -/
def isInternal (target : List Char) : Bool :=
  "/".toList.isPrefixOf target && !Text.contains "$\x7b".toList target

/-- The internal targets of a source text, each once. -/
def extract (content : List Char) : List String :=
  (Text.unique ((forms.flatMap fun form => (form.findAll content).map (·.group 1)).filter
    isInternal)).map String.ofList

end SiteAtlas.Source.Link
