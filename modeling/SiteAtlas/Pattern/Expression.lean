import SiteAtlas.Pattern.Expression.Reader
import SiteAtlas.Pattern.Expression.Search

/-!
# Written patterns

A written pattern is read, checked and assembled into steps that lead through a text.
-/

namespace SiteAtlas

/-- A pattern that was written as a text. -/
structure Expression where
  steps : Expression.Step
  /-- The least number of characters that a text has to have. -/
  leastWidth : Nat

namespace Expression

/-- How far back is too far for a look behind. -/
def behindLimit : Nat := 0x80000000

/-- Check that looks behind have fixed, possible widths. -/
def checkBehind (row : List Node) : Except ExpressionError Unit :=
  let widths := rowBehindWidths row
  if widths.any fun width => width.1 != width.2 then .error .malformed
  else if widths.any fun width => width.1 ≥ behindLimit then .error .behindTooFar
  else .ok ()

/-- The meaning of a written pattern. -/
def ofText [Host] (written : List Char) : Except ExpressionError Expression := do
  let row ← read written
  checkBehind row
  return { steps := (assembleRow {} .unknown row).1, leastWidth := (widthOf row).1 }

/-- Whether a text matches from its beginning on. -/
def accepts (e : Expression) (cs : List Char) : Bool :=
  e.leastWidth ≤ cs.length && e.steps.succeedsOn cs

end Expression

end SiteAtlas
