import SiteAtlas.Project.Basic
import SiteAtlas.Project.Kind
import SiteAtlas.ScanError

/-!
# Detection

The framework and the router of a project, from its manifest, failing that from its directories and
entry files.
-/

namespace SiteAtlas.Project

open SiteAtlas.Data (Value)

/-- The manifest, empty if missing, malformed or no table. -/
def manifest [Host] (p : Project) : Except ScanError (Keyed Value) := do
  if ← (p.tree.checkFile (p.root / "package.json")).mapError .lookup then
    match p.tree.readText? (p.root / "package.json") with
    | some content =>
      match ← (Data.Json.readIfWellFormed Host.manifestRoom content).mapError .configuration with
      | some (.table entries) => return entries
      | _ => return []
    | none => return []
  else return []

/-- Whether a manifest has a dependency. -/
def dependsOn (manifest : Keyed Value) (name : String) : Bool :=
  ["dependencies", "devDependencies"].any fun part =>
    (((manifest.get? part).bind fun dependencies => dependencies.entry? name)).isSome

/-- Files that a program may begin with. -/
def entryFiles : List String :=
  ["src/App.tsx", "src/App.jsx", "src/App.js", "src/main.tsx", "src/main.jsx", "src/main.js",
   "src/index.tsx", "src/index.jsx", "src/index.js",
   "App.tsx", "App.jsx", "App.js"]

/-- Texts that tell of routes. -/
def routeSigns : List String :=
  ["react-router", "<Routes>", "<Route"]

/-- Whether an entry file has routes. -/
def declaresRoutes (p : Project) : Bool :=
  entryFiles.any fun name =>
    match p.tree.readText? (p.root / name) with
    | some content => routeSigns.any fun sign => Text.contains sign.toList content
    | none => false

/-- Whether a special file is a page. -/
def hasAppPage (p : Project) : Bool :=
  p.appDirectories.any fun directory => (p.routeFilesBelow directory).any (·.stem == "page")

/-- Whether some file lies below a directory of page files. -/
def hasPageFile (p : Project) : Bool :=
  p.pageDirectories.any fun directory => !(p.filesBelow directory).isEmpty

/-- Framework and router without a telling dependency. -/
def detectByLayout (p : Project) : Framework × Router :=
  if p.hasAppPage then (.nextjs, .nextjsApp)
  else if p.hasPageFile then (.nextjs, .nextjsPages)
  else if p.declaresRoutes then (.react, .reactRouter)
  else (.unknown, .unknown)

/-- Framework and router by a manifest. -/
def detectFrom (p : Project) (manifest : Keyed Value) : Framework × Router :=
  if dependsOn manifest "next" && !p.appDirectories.isEmpty then (.nextjs, .nextjsApp)
  else if dependsOn manifest "next" && !p.pageDirectories.isEmpty then (.nextjs, .nextjsPages)
  else if dependsOn manifest "react-router-dom" || dependsOn manifest "react-router" then
    (.react, .reactRouter)
  else if dependsOn manifest "react" then
    (.react, if p.declaresRoutes then .reactRouter else .unknown)
  else p.detectByLayout

/-- The framework and the router of a project. -/
def detect [Host] (p : Project) : Except ScanError (Framework × Router) :=
  p.manifest.map p.detectFrom

end SiteAtlas.Project
