import SiteAtlas.Graph.Closure
import SiteAtlas.Route.Matcher

/-!
# Linking a catalog

Linking adds who uses what: back-references, references to server actions, closures, the routes of
the middleware, and the edges. Nothing else changes.
-/

namespace SiteAtlas

/-- Append items that are not in a list, in order. -/
def addAll (items more : List String) : List String :=
  more.foldl Text.addUnique items

/-- Change the last item of each identifier. -/
def mapLast {α : Type} (id : α → String) (change : α → α) : List α → List α
  | [] => []
  | a :: rest => (if rest.any (id · == id a) then a else change a) :: mapLast id change rest

/-- Edges in order of source, target and kind. -/
def edgeLE (a b : Edge) : Bool :=
  if a.source < b.source then true
  else if a.source = b.source then Text.pairLE (a.target, a.kind.label) (b.target, b.kind.label)
  else false

/-- Everything that linking learns from a catalog. -/
structure Linking where
  indexes : Indexes
  adjacency : Adjacency
  pageReferences : List PageReference
  importReferences : List ImportReference

/-- What linking looks up. -/
def Linking.ofCatalog (c : Catalog) : Linking :=
  let indexes := Indexes.ofCatalog c
  { indexes, adjacency := Adjacency.ofCatalog indexes c
    pageReferences := SiteAtlas.pageReferences indexes c
    importReferences := SiteAtlas.importReferences indexes c }

namespace Linking

/-- Routes of the pages that render a component. -/
def pagesUsing (l : Linking) (id : String) : List String :=
  (l.pageReferences.filter (·.target == id)).map (·.page.route)

/-- Names of the components that import an entity. -/
def componentsUsing (l : Linking) (kind : TargetKind) (id : String) : List String :=
  (l.importReferences.filter fun r => r.kind == kind && r.target == id).map (·.component.name)

end Linking

/-- Add a reference unless its function is referred to. -/
def addAction (refs : List ServerActionRef) (r : ActionReference) : List ServerActionRef :=
  if refs.any fun ref => ref.functionName == r.function && ref.sourceFilePath == r.action.filePath
  then refs
  else refs ++ [⟨r.function, r.action.relativePath, r.action.filePath⟩]

/-- All edges of a catalog, sorted, each once. -/
def linkedEdges (table : AliasTable) (c : Catalog) (l : Linking) : List Edge :=
  (Text.unique (l.pageReferences.map (fun r => ⟨r.page.id, r.target, .renders⟩) ++
      l.importReferences.map (fun r => ⟨r.component.id, r.target, .imports⟩) ++
      c.components.flatMap fun component =>
        (actionReferencesOf table c component).map fun r =>
          ⟨component.id, r.action.id, .callsAction⟩)).mergeSort edgeLE

/-- A component with its references and its closure. -/
def linkOwn (table : AliasTable) (c : Catalog) (l : Linking) (component : Component) : Component :=
  { component with
    serverActions := (actionReferencesOf table c component).foldl addAction component.serverActions
    allDependencies := some (closureOf c l.adjacency component) }

/-- A component with its back-references. -/
def linkUses (l : Linking) (component : Component) : Component :=
  { component with
    usedInPages := addAll component.usedInPages (l.pagesUsing component.id)
    usedInComponents :=
      addAll component.usedInComponents (l.componentsUsing .component component.id) }

/-- Routes of proper pages. -/
def pageRoutes (c : Catalog) : List String :=
  (c.pages.filter (·.kind == .page)).map (·.route)

/-- The middleware with its routes, all if it has no matcher. -/
def linkMiddleware [Host] (c : Catalog) (m : Middleware) :
    Except Expression.ExpressionError Middleware := do
  if m.matcherPatterns.isEmpty then return { m with usedIn := addAll m.usedIn (pageRoutes c) }
  let patterns ← m.matcherPatterns.mapM fun matcher => Route.readMatcher matcher.toList
  return { m with usedIn := addAll m.usedIn ((pageRoutes c).filter fun route =>
    (patterns.filterMap id).any (Route.covers · route.toList)) }

/-- The middleware of a catalog with its routes. -/
def linkedMiddleware [Host] (c : Catalog) : Except Expression.ExpressionError (Option Middleware) :=
  match c.middleware with
  | none => .ok none
  | some m => (linkMiddleware c m).map some

/-- Link a catalog by the aliases; a matcher may be refused. -/
def Catalog.link [Host] (c : Catalog) (table : AliasTable) :
    Except Expression.ExpressionError Catalog := do
  let l := Linking.ofCatalog c
  let middleware ← linkedMiddleware c
  return { c with
    components := mapLast Component.id (linkUses l) (c.components.map (linkOwn table c l))
    hooks := mapLast Hook.id (fun h =>
      { h with usedIn := addAll h.usedIn (l.componentsUsing .hook h.id) }) c.hooks
    contexts := mapLast Context.id (fun x =>
      { x with usedIn := addAll x.usedIn (l.componentsUsing .context x.id) }) c.contexts
    utilities := mapLast Utility.id (fun u =>
      { u with usedIn := addAll u.usedIn (l.componentsUsing .utility u.id) }) c.utilities
    stores := mapLast Store.id (fun s =>
      { s with usedIn := addAll s.usedIn (l.componentsUsing .store s.id) }) c.stores
    middleware
    edges := linkedEdges table c l }

end SiteAtlas
