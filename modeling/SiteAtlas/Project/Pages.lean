import SiteAtlas.Catalog.Entity
import SiteAtlas.Project.Basic
import SiteAtlas.Route.Declaration

/-!
# Pages of a project

Pages are special files, page files or declared routes, depending on the router. A declared route
is led back to its component's file by convention.
-/

namespace SiteAtlas

open SiteAtlas.Route (SpecialFile)

/-- A page found; a known file is analysed. -/
structure PageCandidate where
  page : Page
  analyze : Bool := true
  deriving DecidableEq

namespace Project

/-- The page of a special file below a routing directory. -/
def specialPage? (directory file : Path) : Option Page :=
  (SpecialFile.ofStem? file.stem).map fun role =>
    { route := Route.ofNames ((file.below? directory).getD []) .nextjsApp, filePath := file.toString
      fileName := file.name
      roles := .ofSpecialFile role }

/-- Pages that are special files. -/
def appPages (p : Project) : List PageCandidate :=
  p.appDirectories.flatMap fun directory =>
    (p.routeFilesBelow directory).filterMap fun file =>
      (specialPage? directory file).map fun page => { page }

/-- Stems of files that frame every page. -/
def frameStems : List String :=
  ["_app", "_document"]

/-- Whether a file is a page. -/
def isPageFile (names : List String) (file : Path) : Bool :=
  !(names.length > 1 && names.head? = some "api") && !frameStems.contains file.stem

/-- Pages that are files. -/
def filePages (p : Project) : List PageCandidate :=
  p.pageDirectories.flatMap fun directory =>
    (p.routeFilesBelow directory).filterMap fun file =>
      let names := (file.below? directory).getD []
      if isPageFile names file then
        some { page :=
          { route := Route.ofNames names .nextjsPages, filePath := file.toString
            fileName := file.name } }
      else none

/-- Where a component's file lies, in order of preference. -/
def conventionalFiles (component : String) : List String :=
  ["src/components/" ++ component ++ ".tsx", "src/components/" ++ component ++ ".jsx",
   "src/components/" ++ component ++ ".js",
   "src/components/" ++ component ++ "/" ++ component ++ ".tsx",
   "src/components/" ++ component ++ "/index.tsx",
   "components/" ++ component ++ ".tsx",
   "components/" ++ component ++ ".jsx",
   "src/pages/" ++ component ++ ".tsx",
   "src/views/" ++ component ++ ".tsx",
   "src/screens/" ++ component ++ ".tsx",
   "src/" ++ component ++ ".tsx"]

/-- The file of a component by convention, or by name. -/
def componentFile [Host] (p : Project) (component : String) : Except LookupError (Option Path) := do
  let conventional ← ((conventionalFiles component).map (p.root / ·)).findM? p.tree.checkFile
  return conventional.or ((p.filesBelow p.root).find? (·.stem == component))

/-- Conventional files for routes. -/
def routeFiles : List String :=
  ["src/App.tsx", "src/App.jsx", "src/App.js", "src/routes.tsx", "src/routes.jsx", "src/routes.js",
   "src/router.tsx", "src/router.jsx", "src/router.js",
   "src/Routes.tsx", "src/Routes.jsx", "src/Routes.js",
   "src/Router.tsx", "src/Router.jsx", "src/Router.js",
   "App.tsx", "App.jsx", "App.js",
   "src/config/routes.tsx", "src/config/routes.ts",
   "src/routing/index.tsx", "src/routing/index.ts",
   "src/routing/routes.tsx", "src/routing/routes.ts",
   "src/app/routes.tsx", "src/app/routes.ts",
   "src/main.tsx", "src/main.jsx", "src/main.js",
   "src/index.tsx", "src/index.jsx", "src/index.js"]

/-- Parts of stems that suggest routes. -/
def routeStemParts : List String :=
  ["routes", "router", "Routes", "Router"]

/-- Whether a stem suggests routes. -/
def isRouteStem (stem : String) : Bool :=
  routeStemParts.any (Text.stringContains · stem)

/-- Whether a source looks like one with routes. -/
def looksLikeRoutes (content : List Char) (conventional : Bool) : Bool :=
  let has (part : String) : Bool := Text.contains part.toList content
  has "<Route" || has "createBrowserRouter" || if conventional then
      has "createHashRouter" || has "createMemoryRouter" || has "RouteObject" ||
        (has "path:" && has "element:")
    else has "path:"

/-- Files that may declare routes, and which are conventional. -/
def routeFileCandidates (p : Project) : List (Path × Bool) :=
  let conventional := (routeFiles.map (p.root / ·)).filter p.tree.isFile
  let suggested := (p.filesBelow (p.root / "src")).filter fun file =>
    isRouteStem file.stem && !conventional.contains file
  conventional.map (·, true) ++ suggested.map (·, false)

/-- The page of a declaration. -/
def declaredPage (file : Path) (d : Route.Declaration) : Page :=
  { route := d.route, filePath := file.toString, fileName := d.component ++ ".tsx"
    componentName := some d.component }

/-- The pages of a source. -/
def declaredPages (file : Path) (content : List Char) : List Page :=
  (Route.declarations content).map (declaredPage file)

/-- Lead a declared page back to the file of its component. -/
def locatePage [Host] (p : Project) (page : Page) : Except LookupError PageCandidate := do
  match ← p.componentFile (page.componentName.getD "") with
  | some file => return { page := { page with filePath := file.toString, fileName := file.name } }
  | none => return { page, analyze := false }

/-- Declared routes as pages, each with its source. -/
def declaredRoutes (p : Project) : List Page :=
  p.routeFileCandidates.flatMap fun (file, conventional) =>
    match p.tree.readText? file with
    | some content =>
      if looksLikeRoutes content conventional then declaredPages file content else []
    | none => []

/-- The pages of a project. -/
def pages [Host] (p : Project) : Router → Except LookupError (List PageCandidate)
  | .nextjsApp => .ok p.appPages
  | .nextjsPages => .ok p.filePages
  | _ => p.declaredRoutes.mapM p.locatePage

end Project

end SiteAtlas
