import SiteAtlas.Proofs.Collecting
import SiteAtlas.Proofs.EntityTable

/-!
# The shape of a linked catalog

Linking can fail only at the middleware. Apart from that the linked catalog is given part by part,
and differs from the old one only in what linking adds.
-/

namespace SiteAtlas

open List

/-- How entities keep the names of their importers. -/
structure UseList (α : Type) where
  kind : TargetKind
  id : α → String
  uses : α → List String
  set : α → List String → α
  id_set : ∀ a names, id (set a names) = id a
  uses_set : ∀ a names, uses (set a names) = names
  set_set : ∀ a first second, set (set a first) second = set a second

namespace UseList

variable {α : Type} (u : UseList α)

/-- An entity with the components that import it. -/
def link (l : Linking) (a : α) : α :=
  u.set a (addAll (u.uses a) (l.componentsUsing u.kind (u.id a)))

/-- Entities with their importers, the last of each identifier. -/
def linkAll (l : Linking) (items : List α) : List α :=
  mapLast u.id (u.link l) items

/-- An entity without the components that import it. -/
def bare (a : α) : α :=
  u.set a []

/-- Linking entities changes nothing but their use lists. -/
theorem map_bare_linkAll (l : Linking) (items : List α) :
    (u.linkAll l items).map u.bare = items.map u.bare :=
  map_mapLast_of_eq u.id (u.link l) u.bare (fun a => u.set_set a _ _) items

/-- Linking entities a second time changes nothing. -/
theorem linkAll_linkAll (l : Linking) (items : List α) :
    u.linkAll l (u.linkAll l items) = u.linkAll l items := by
  have hlink : u.link l ∘ u.link l = u.link l := by
    funext a
    simp only [Function.comp_apply, link]
    rw [u.uses_set, u.id_set, u.set_set, addAll_addAll]
  unfold linkAll
  rw [mapLast_mapLast u.id (u.link l) (u.link l) (fun a => u.id_set a _), hlink]

end UseList

/-- The use list of a hook. -/
def Hook.useList : UseList Hook :=
  ⟨.hook, Hook.id, Hook.usedIn, fun h names => { h with usedIn := names },
    fun _ _ => rfl, fun _ _ => rfl, fun _ _ _ => rfl⟩

/-- The use list of a context. -/
def Context.useList : UseList Context :=
  ⟨.context, Context.id, Context.usedIn, fun x names => { x with usedIn := names },
    fun _ _ => rfl, fun _ _ => rfl, fun _ _ _ => rfl⟩

/-- The use list of a utility. -/
def Utility.useList : UseList Utility :=
  ⟨.utility, Utility.id, Utility.usedIn, fun x names => { x with usedIn := names },
    fun _ _ => rfl, fun _ _ => rfl, fun _ _ _ => rfl⟩

/-- The use list of a store. -/
def Store.useList : UseList Store :=
  ⟨.store, Store.id, Store.usedIn, fun x names => { x with usedIn := names },
    fun _ _ => rfl, fun _ _ => rfl, fun _ _ _ => rfl⟩

namespace Catalog

variable {c linked : Catalog} {table : AliasTable}

/-- A catalog with all that linking learns, given the middleware. -/
def linkedFrom (c known : Catalog) (table : AliasTable) (middleware : Option Middleware) :
    Catalog :=
  let l := Linking.ofCatalog known
  { c with
    components := mapLast Component.id (linkUses l) (c.components.map (linkOwn table known l))
    hooks := Hook.useList.linkAll l c.hooks
    contexts := Context.useList.linkAll l c.contexts
    utilities := Utility.useList.linkAll l c.utilities
    stores := Store.useList.linkAll l c.stores
    middleware
    edges := linkedEdges table known l }

/-- Linking succeeds if the middleware's does, and adds what it learns. -/
theorem link_eq_ok_iff [Host] (c : Catalog) (table : AliasTable) (linked : Catalog) :
    c.link table = .ok linked ↔ ∃ middleware, linkedMiddleware c = .ok middleware ∧
        linked = c.linkedFrom c table middleware := by
  unfold link
  cases linkedMiddleware c with
  | error e =>
    constructor
    · intro h
      cases h
    · rintro ⟨middleware, h, -⟩
      cases h
  | ok middleware =>
    constructor
    · intro h
      exact ⟨middleware, rfl, (Except.ok.inj h).symm⟩
    · rintro ⟨found, hfound, rfl⟩
      cases hfound
      rfl

/-- A linked component has the identifier and closure of an old one. -/
theorem exists_of_mem_linked [Host] (h : c.link table = .ok linked) (x : Component)
    (hx : x ∈ linked.components) : ∃ y ∈ c.components, x.id = y.id ∧
      x.allDependencies = some (closureOf c (Linking.ofCatalog c).adjacency y) := by
  obtain ⟨middleware, -, rfl⟩ := (link_eq_ok_iff c table linked).mp h
  obtain ⟨own, hown, hx⟩ := mem_mapLast _ _ _ _ hx
  obtain ⟨y, hy, rfl⟩ := mem_map.mp hown
  refine ⟨y, hy, ?_⟩
  rcases hx with rfl | rfl
  · exact ⟨rfl, rfl⟩
  · exact ⟨rfl, rfl⟩

end Catalog

/-- A component without what linking adds to it. -/
def Component.bare (x : Component) : Component :=
  { x with serverActions := [], usedInPages := [], usedInComponents := [], allDependencies := none }

/-- Back-references are among what linking adds to a component. -/
theorem bare_linkUses (l : Linking) (x : Component) : (linkUses l x).bare = x.bare := rfl

/-- The middleware without what linking adds to it. -/
def Middleware.bare (m : Middleware) : Middleware := { m with usedIn := [] }

/-- A catalog without what linking adds to it. -/
def Catalog.bare (c : Catalog) : Catalog :=
  { c with
    components := c.components.map Component.bare
    hooks := c.hooks.map Hook.useList.bare
    contexts := c.contexts.map Context.useList.bare
    utilities := c.utilities.map Utility.useList.bare
    stores := c.stores.map Store.useList.bare
    middleware := c.middleware.map Middleware.bare
    edges := [] }

/-- The routes that matchers cover, all if there is none. -/
def coveredRoutes [Host] (routes matchers : List String) :
    Except Expression.ExpressionError (List String) := do
  if matchers.isEmpty then return routes
  let patterns ← matchers.mapM fun matcher => Route.readMatcher matcher.toList
  return routes.filter fun route => (patterns.filterMap id).any (Route.covers · route.toList)

/-- Linking the middleware adds the covered routes. -/
theorem linkMiddleware_eq [Host] (c : Catalog) (m : Middleware) :
    linkMiddleware c m = (coveredRoutes (pageRoutes c) m.matcherPatterns).map fun routes =>
      { m with usedIn := addAll m.usedIn routes } := by
  unfold linkMiddleware coveredRoutes
  split
  · rfl
  · cases m.matcherPatterns.mapM fun matcher => Route.readMatcher matcher.toList <;> rfl

/-- The middleware is linked if its matchers are read, with their routes. -/
theorem linkedMiddleware_eq_ok_iff [Host] (c : Catalog) (middleware : Option Middleware) :
    linkedMiddleware c = .ok middleware ↔ (c.middleware = none ∧ middleware = none) ∨
      ∃ m routes, c.middleware = some m ∧
        coveredRoutes (pageRoutes c) m.matcherPatterns = .ok routes ∧
        middleware = some { m with usedIn := addAll m.usedIn routes } := by
  unfold linkedMiddleware
  cases c.middleware with
  | none => simp [eq_comm]
  | some m =>
    simp only [linkMiddleware_eq]
    cases hcovered : coveredRoutes (pageRoutes c) m.matcherPatterns with
    | error e => simp [Except.map, hcovered]
    | ok routes => simp [Except.map, hcovered, eq_comm]

/-- Linking keeps the middleware but for the routes. -/
theorem bare_linkedMiddleware [Host] (c : Catalog) (middleware : Option Middleware)
    (h : linkedMiddleware c = .ok middleware) :
    middleware.map Middleware.bare = c.middleware.map Middleware.bare := by
  rcases (linkedMiddleware_eq_ok_iff c middleware).mp h with ⟨hm, rfl⟩ | ⟨m, routes, hm, -, rfl⟩
  · rw [hm]
  · rw [hm]
    rfl

namespace Catalog

variable {c linked : Catalog} {table : AliasTable}

/-- Linking changes nothing but what it adds. -/
theorem bare_link [Host] (h : c.link table = .ok linked) : linked.bare = c.bare := by
  obtain ⟨middleware, hmiddleware, rfl⟩ := (link_eq_ok_iff c table linked).mp h
  have hcomponents : (mapLast Component.id (linkUses (Linking.ofCatalog c))
      (c.components.map (linkOwn table c (Linking.ofCatalog c)))).map Component.bare =
        c.components.map Component.bare := by
    rw [map_mapLast_of_eq _ _ _ (bare_linkUses (Linking.ofCatalog c)), map_map]
    rfl
  simp only [bare, linkedFrom, hcomponents, bare_linkedMiddleware c middleware hmiddleware,
    UseList.map_bare_linkAll]

/-- Linking keeps the pages. -/
theorem pages_link [Host] (h : c.link table = .ok linked) : linked.pages = c.pages := by
  obtain ⟨middleware, -, rfl⟩ := (link_eq_ok_iff c table linked).mp h
  rfl

/-- What linking does not touch holds of components as before. -/
theorem exists_component_link [Host] (h : c.link table = .ok linked) (P : Component → Prop)
    (hP : ∀ x y : Component, x.bare = y.bare → P x → P y) :
    (∃ x ∈ linked.components, P x) ↔ ∃ x ∈ c.components, P x := by
  have hbare : linked.components.map Component.bare = c.components.map Component.bare :=
    congrArg Catalog.components (bare_link h)
  constructor
  · rintro ⟨x, hx, hPx⟩
    obtain ⟨y, hy, hyx⟩ := mem_map.mp (hbare ▸ mem_map_of_mem hx)
    exact ⟨y, hy, hP x y hyx.symm hPx⟩
  · rintro ⟨x, hx, hPx⟩
    obtain ⟨y, hy, hyx⟩ := mem_map.mp (hbare.symm ▸ mem_map_of_mem hx)
    exact ⟨y, hy, hP x y hyx.symm hPx⟩

/-- Identifiers are not among what linking adds. -/
theorem ids_bare (c : Catalog) : c.bare.entities.map Entity.id = c.entities.map Entity.id := by
  simp only [entities, bare, map_append, map_map]
  rfl

/-- Linking keeps the identifiers of all entities. -/
theorem ids_link [Host] (h : c.link table = .ok linked) :
    linked.entities.map Entity.id = c.entities.map Entity.id := by
  rw [← linked.ids_bare, bare_link h, c.ids_bare]

end Catalog

/-- A table without aliases. -/
def noAliases : AliasTable :=
  ⟨none, []⟩

/-- Two components that import each other, one also named like a utility, below a third that a page
renders, with a hook that depends on another and a server action. -/
def menuCatalog : Catalog where
  projectPath := "/site"
  projectName := "site"
  framework := .react
  router := .unknown
  pages := [{ route := "/", filePath := "/p", fileName := "p", componentName := some "Frame" }]
  components :=
    [{ name := "Frame", filePath := "/f", fileName := "f", imports := ["Menu"] },
     { name := "Menu", filePath := "/m", fileName := "m", imports := ["Item", "useMenu", "item"] },
     { name := "Item", filePath := "/i", fileName := "i", imports := ["menu", "item"],
       importRecords := [{ names := ["save"], source := "./act", isLocal := true }] }]
  hooks :=
    [{ name := "useMenu", filePath := "/h", fileName := "h",
       dependencies := ["useFocus", "useRef"] },
     { name := "useFocus", filePath := "/h", fileName := "h" }]
  utilities := [{ name := "item", filePath := "/u", fileName := "u" }]
  serverActionFiles :=
    [{ filePath := "/act.ts", relativePath := "act.ts", exportedFunctions := ["save"] }]
  middleware := some { filePath := "/w", fileName := "w" }

end SiteAtlas
