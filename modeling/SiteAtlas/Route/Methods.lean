import SiteAtlas.Source.Export

/-!
# Request methods

The methods that a handler answers to: functions named after them, or a default handler that
compares the request's method.
-/

namespace SiteAtlas.Route

open Pattern
open SiteAtlas.Source.Export (keyword defaultKeyword optionalAsync functionKeyword)

/-- Methods that may be compared. -/
def comparedMethods : List String :=
  ["GET", "POST", "PUT", "DELETE", "PATCH"]

/-- Methods that an exported function may be named after. -/
def allMethods : List String :=
  comparedMethods ++ ["HEAD", "OPTIONS"]

/-- Default handlers. -/
def defaultHandler : List Pattern :=
  [defaultKeyword ++ optionalAsync ++ text "function", defaultKeyword ++ text "handler"]

/-- Whether a source compares the method of a request with a given one. -/
def comparesMethod (content : List Char) (method : String) : Bool :=
  Text.contains ("req.method === '" ++ method ++ "'").toList content ||
    Text.contains ("req.method === \"" ++ method ++ "\"").toList content

/-- A function named after a method. -/
def methodFunction (method : String) : Pattern :=
  keyword ++ optionalAsync ++ functionKeyword ++ text method ++ wordEdge

/-- The methods of a default handler: those that it compares with, or any. -/
def handlerMethods (content : List Char) : List String :=
  if defaultHandler.any (·.occursIn content) then
    let compared := comparedMethods.filter (comparesMethod content)
    if compared.isEmpty then ["*"] else compared
  else []

/-- The methods that a source handles, or any if it names none. -/
def methods (content : List Char) : List String :=
  let found := Text.unique (handlerMethods content ++
    allMethods.filter fun method => (methodFunction method).occursIn content)
  if found.isEmpty then ["*"] else found

end SiteAtlas.Route
