import SiteAtlas.Data.Json.Reader
import SiteAtlas.Pattern.Expression.Token
import SiteAtlas.Tree.Lookup

/-!
# What keeps a project from being scanned

A scan gives up over a configuration nested too deeply, a path that cannot be looked up, a matcher
that cannot be read, or a stack that gives out.
-/

namespace SiteAtlas

/-- Why a project cannot be scanned. -/
inductive ScanError where
  /-- A file of the project's configuration cannot be read. -/
  | configuration (fault : Data.Json.Fault)
  /-- A path cannot be looked up. -/
  | lookup (e : LookupError)
  /-- A matcher of the middleware cannot be read. -/
  | matcher (e : Expression.ExpressionError)
  /-- The stack gives out. -/
  | stack
  deriving DecidableEq

/-- What is said about an error. -/
def ScanError.message : ScanError → String
  | .configuration fault => fault.message
  | .lookup e => e.message
  | .matcher e => e.message
  | .stack => "maximum recursion depth exceeded"

end SiteAtlas
