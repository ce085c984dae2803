import SiteAtlas.Pattern.Matching

/-!
# Comments in JSON

Compiler configurations are JSON with comments and commas before closing brackets. Stripping
removes them and leaves strings alone, commas before brackets apart.
-/

namespace SiteAtlas.Data.Json

open Pattern

/-- A string, captured as 1, or a comment. -/
def stringOrComment : Pattern :=
  .either (capture 1 (char '"' ++ many (.either (char '\\' ++ any) (noneOf "\"\\")) ++ char '"'))
    (.either (text "//" ++ many (noneOf "\n")) (text "/*" ++ few any ++ text "*/"))

/-- A comma before a closing bracket, captured as 1 with blanks. -/
def trailingComma : Pattern :=
  char ',' ++ capture 1 (blanks ++ oneOf "\x7d]")

/-- Drop comments. -/
def stripComments (cs : List Char) : List Char :=
  stringOrComment.replaceAll (·.group 1) cs

/-- Drop commas before brackets. -/
def stripCommas (cs : List Char) : List Char :=
  trailingComma.replaceAll (·.group 1) cs

/-- Drop comments and commas before brackets. -/
def strip (cs : List Char) : List Char :=
  stripCommas (stripComments cs)

end SiteAtlas.Data.Json
