import SiteAtlas.Pattern.Expression
import SiteAtlas.Pattern.Matching

/-!
# Route matchers

A route pattern with parameters: `:name` stands for one segment, with a mark for an optional one
(`?`), any number (`*`) or at least one (`+`). All else is a written pattern for the whole route.
-/

namespace SiteAtlas.Route

open Pattern

variable [Host]

/-- A parameter with a mark. -/
def markedParameter (mark : Char) : Pattern :=
  text "/:" ++ word ++ char mark

/-- A parameter without mark. -/
def parameter : Pattern :=
  char ':' ++ word

/-- Replace matches by a text. -/
def replaceBy (p : Pattern) (replacement : String) (cs : List Char) : List Char :=
  p.replaceAll (fun _ => replacement.toList) cs

/-- The written pattern for whole routes that a matcher stands for. -/
def matcherExpression (matcher : List Char) : List Char :=
  let any := replaceBy (markedParameter '*') "(?:/.*)?" matcher
  let some := replaceBy (markedParameter '+') "/.+" any
  let perhaps := replaceBy (markedParameter '?') "(?:/[^/]+)?" some
  '^' :: replaceBy parameter "[^/]+" perhaps ++ ['$']

/-- The pattern of a matcher; none if the matcher is malformed. -/
def readMatcher (matcher : List Char) : Except Expression.ExpressionError (Option Expression) :=
  match Expression.ofText (matcherExpression matcher) with
  | .ok e => .ok (some e)
  | .error .malformed => .ok none
  | .error e => .error e

/-- Whether a pattern covers a route. -/
def covers (e : Expression) (route : List Char) : Bool :=
  e.accepts route

end SiteAtlas.Route
