import SiteAtlas.Pattern.Matching

/-!
# Matchers in a source

Matchers that a middleware source declares: a list of quoted texts, a single one, or both.
-/

namespace SiteAtlas.Route

open Pattern

/-- A list of matchers, its text captured as 1. -/
def matcherArray : Pattern :=
  text "matcher:" ++ blanks ++ char '[' ++ capture 1 (many1 (noneOf "]")) ++ char ']'

/-- A quoted text, captured as 1. -/
def quotedMatcher : Pattern :=
  oneOf "'\"" ++ capture 1 (many1 (noneOf "'\"")) ++ oneOf "'\""

/-- A single matcher, captured as 1. -/
def matcherString : Pattern :=
  text "matcher:" ++ blanks ++ quotedMatcher

/-- Matchers that a source declares. -/
def declaredMatchers (content : List Char) : List String :=
  let listed := match matcherArray.find? content with
    | some m => (quotedMatcher.findAll (m.group 1)).map (·.groupString 1)
    | none => []
  listed ++ ((matcherString.find? content).map (·.groupString 1)).toList

end SiteAtlas.Route
