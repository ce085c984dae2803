import SiteAtlas.Pattern.Matching

/-!
# Plain output

Texts as they are, but for terminal sequences and carriage returns before line breaks.
-/

namespace SiteAtlas.Console

open Pattern

/-- A sequence that controls a terminal. -/
def controlSequence : Pattern :=
  text "\x1b[" ++ many (oneOf ";?0123456789") ++ .one Char.isAlpha

/-- Drop returns before line breaks. -/
def plainBreaks : List Char → List Char
  | '\r' :: '\n' :: rest => '\n' :: plainBreaks rest
  | c :: rest => c :: plainBreaks rest
  | [] => []

/-- A line of plain output. -/
def plainLine (s : String) : List Char :=
  plainBreaks (controlSequence.eraseAll s.toList ++ ['\n'])

end SiteAtlas.Console
