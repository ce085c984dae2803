import SiteAtlas.Catalog.Record
import SiteAtlas.Data.Json.Writer

/-!
# Catalogs as JSON

The record of a catalog as JSON, with layouts nested as far as the stack has room.
-/

namespace SiteAtlas

mutual

/-- How many layouts a tree has above each other. -/
def LayoutNode.levels : LayoutNode → Nat
  | .node _ _ children => levelsAmong children + 1

/-- How many layouts are nested in several trees. -/
def levelsAmong : List LayoutNode → Nat
  | [] => 0
  | n :: rest => max n.levels (levelsAmong rest)

end

/-- Why a catalog has no JSON text. -/
inductive JsonExportError where
  /-- Its layouts are nested too deeply. -/
  | stack
  /-- Something in its record cannot be written. -/
  | value (e : Data.Json.WriteError)
  deriving DecidableEq

/-- What is said about an error. -/
def JsonExportError.message : JsonExportError → String
  | .stack => "maximum recursion depth exceeded"
  | .value e => e.message

namespace Catalog

/-- How many layouts a catalog has above each other. -/
def layoutLevels (c : Catalog) : Nat :=
  (c.layoutHierarchy.map LayoutNode.levels).getD 0

section

variable [Host]

/-- The record of a catalog. -/
def record (c : Catalog) : Except JsonExportError Data.Value :=
  if Host.layoutRoom < c.layoutLevels then .error .stack else .ok c.toValue

/-- The JSON text of a catalog. -/
def exportJson (c : Catalog) : Except JsonExportError (List Char) := do
  (Data.Json.write (← c.record)).mapError .value

end

end Catalog

end SiteAtlas
