import SiteAtlas.Route.FilePath
import SiteAtlas.Source.DataAccess
import SiteAtlas.Source.Import
import SiteAtlas.Source.Props

/-!
# Catalogued entities

What a scan finds in a project, and the edges between it.
-/

namespace SiteAtlas

open SiteAtlas.Source (DataDependency Import Property)
open SiteAtlas.Route (SpecialFile)

/-- Roles that a page file has besides serving its route. -/
structure PageRoles where
  layout : Bool := false
  loading : Bool := false
  error : Bool := false
  template : Bool := false
  notFound : Bool := false
  globalError : Bool := false
  default : Bool := false
  apiRoute : Bool := false
  deriving DecidableEq, Inhabited

/-- The roles of a special file. -/
def PageRoles.ofSpecialFile : SpecialFile → PageRoles
  | .page => {}
  | .layout => { layout := true }
  | .loading => { loading := true }
  | .error => { error := true }
  | .template => { template := true }
  | .notFound => { notFound := true }
  | .globalError => { globalError := true }
  | .default => { default := true }
  | .route => { apiRoute := true }

/-- The first role that applies. -/
def PageRoles.kind (r : PageRoles) : SpecialFile :=
  if r.layout then .layout
  else if r.loading then .loading
  else if r.error then .error
  else if r.template then .template
  else if r.notFound then .notFound
  else if r.globalError then .globalError
  else if r.default then .default
  else if r.apiRoute then .route
  else .page

/-- A file or declaration that serves a route. -/
structure Page where
  route : String
  filePath : String
  fileName : String
  roles : PageRoles := {}
  /-- The component that a declared route renders. -/
  componentName : Option String := none
  /-- Names that the page imports from project files. -/
  components : List String := []
  linksTo : List String := []
  dataDependencies : List DataDependency := []
  deriving DecidableEq, Inhabited

/-- The kind of file that a page is. -/
def Page.kind (p : Page) : SpecialFile := p.roles.kind

/-- A function of a server action file that a component imports. -/
structure ServerActionRef where
  functionName : String
  importPath : String
  sourceFilePath : String
  deriving DecidableEq, Inhabited

/-- Names of all that a component reaches through imports. -/
structure DependencyClosure where
  components : List String := []
  hooks : List String := []
  contexts : List String := []
  utilities : List String := []
  deriving DecidableEq, Inhabited

/-- A source file that renders a component. -/
structure Component where
  name : String
  filePath : String
  fileName : String
  isClient : Bool := false
  props : List Property := []
  imports : List String := []
  exports : List String := []
  dataDependencies : List DataDependency := []
  serverActions : List ServerActionRef := []
  usedInPages : List String := []
  usedInComponents : List String := []
  allDependencies : Option DependencyClosure := none
  importRecords : List Import := []
  deriving DecidableEq, Inhabited

/-- An exported hook. -/
structure Hook where
  name : String
  filePath : String
  fileName : String
  dependencies : List String := []
  usedIn : List String := []
  deriving DecidableEq, Inhabited

/-- A context with the component that provides it. -/
structure Context where
  name : String
  providerName : String
  filePath : String
  fileName : String
  usedIn : List String := []
  deriving DecidableEq, Inhabited

/-- A source file of helper functions. -/
structure Utility where
  name : String
  filePath : String
  fileName : String
  exports : List String := []
  usedIn : List String := []
  deriving DecidableEq, Inhabited

/-- The library behind a store. -/
inductive StoreKind where
  | redux
  | zustand
  | jotai
  | recoil
  | mobx
  | valtio
  /-- A label that detection never gives. -/
  | other (label : String)
  deriving DecidableEq, Inhabited

namespace StoreKind

/-- The name of a kind in reports. -/
def label : StoreKind → String
  | .redux => "redux"
  | .zustand => "zustand"
  | .jotai => "jotai"
  | .recoil => "recoil"
  | .mobx => "mobx"
  | .valtio => "valtio"
  | .other label => label

/-- The kind with a given name. -/
def ofLabel (label : String) : StoreKind :=
  ([.redux, .zustand, .jotai, .recoil, .mobx, .valtio].find? (·.label == label)).getD (.other label)

end StoreKind

/-- A source file that holds shared state. -/
structure Store where
  name : String
  filePath : String
  fileName : String
  kind : StoreKind
  exports : List String := []
  usedIn : List String := []
  deriving DecidableEq, Inhabited

/-- A source file of functions that run on the server. -/
structure ServerActionFile where
  filePath : String
  relativePath : String
  exportedFunctions : List String := []
  deriving DecidableEq, Inhabited

/-- The middleware of a project. -/
structure Middleware where
  filePath : String
  fileName : String
  matcherPatterns : List String := []
  /-- Routes that the middleware applies to. -/
  usedIn : List String := []
  deriving DecidableEq, Inhabited

/-- A file that answers requests. -/
structure ApiRoute where
  route : String
  filePath : String
  fileName : String
  methods : List String := []
  deriving DecidableEq, Inhabited

/-- A layout with the layouts below it. -/
inductive LayoutNode where
  | node (route filePath : String) (children : List LayoutNode)
  deriving Inhabited

namespace LayoutNode

/-- The route of a layout. -/
def route : LayoutNode → String
  | .node route _ _ => route

/-- The path of a layout's file. -/
def filePath : LayoutNode → String
  | .node _ filePath _ => filePath

/-- The layouts right below a layout. -/
def children : LayoutNode → List LayoutNode
  | .node _ _ children => children

end LayoutNode

/-- How one entity uses another. -/
inductive EdgeKind where
  | renders
  | imports
  | callsAction
  /-- A label that linking never gives. -/
  | other (label : String)
  deriving DecidableEq, Inhabited

namespace EdgeKind

/-- The name of a kind in reports. -/
def label : EdgeKind → String
  | .renders => "renders"
  | .imports => "imports"
  | .callsAction => "calls_action"
  | .other label => label

/-- The kind with a given name. -/
def ofLabel (label : String) : EdgeKind :=
  ([.renders, .imports, .callsAction].find? (·.label == label)).getD (.other label)

end EdgeKind

/-- One entity uses another. -/
structure Edge where
  source : String
  target : String
  kind : EdgeKind
  deriving DecidableEq, Inhabited

/-- The identifier of a page. -/
def Page.id (p : Page) : String := "page:" ++ p.route ++ "@" ++ p.filePath

/-- The identifier of a component. -/
def Component.id (c : Component) : String := "component:" ++ c.filePath

/-- The identifier of a hook. -/
def Hook.id (h : Hook) : String := "hook:" ++ h.name ++ "@" ++ h.filePath

/-- The identifier of a context. -/
def Context.id (c : Context) : String := "context:" ++ c.name ++ "@" ++ c.filePath

/-- The identifier of a utility. -/
def Utility.id (u : Utility) : String := "utility:" ++ u.filePath

/-- The identifier of a store. -/
def Store.id (s : Store) : String := "store:" ++ s.filePath

/-- The identifier of a file of server actions. -/
def ServerActionFile.id (a : ServerActionFile) : String := "action:" ++ a.relativePath

/-- Everything that a scan finds. -/
structure Catalog where
  projectPath : String
  projectName : String
  framework : Framework
  router : Router
  pages : List Page := []
  components : List Component := []
  hooks : List Hook := []
  contexts : List Context := []
  utilities : List Utility := []
  stores : List Store := []
  serverActionFiles : List ServerActionFile := []
  middleware : Option Middleware := none
  apiRoutes : List ApiRoute := []
  layoutHierarchy : Option LayoutNode := none
  edges : List Edge := []
  scannedAt : String := ""
  deriving Inhabited

end SiteAtlas
