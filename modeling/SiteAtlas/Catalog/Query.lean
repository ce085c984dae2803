import SiteAtlas.Catalog.Entity
import SiteAtlas.Path
import SiteAtlas.Text.Lower
import SiteAtlas.Text.Quoted

/-!
# Questions to a catalog

Finding pages, components and the entities of a file, the registry of import paths, and counts.
-/

namespace SiteAtlas

/-- Anything that a catalog lists under an identifier. -/
inductive Entity where
  | page (p : Page)
  | component (c : Component)
  | hook (h : Hook)
  | context (c : Context)
  | utility (u : Utility)
  | store (s : Store)
  | action (a : ServerActionFile)
  deriving DecidableEq

namespace Entity

/-- The identifier of an entity. -/
def id : Entity → String
  | .page p => p.id
  | .component c => c.id
  | .hook h => h.id
  | .context c => c.id
  | .utility u => u.id
  | .store s => s.id
  | .action a => a.id

/-- The path of an entity's file. -/
def filePath : Entity → String
  | .page p => p.filePath
  | .component c => c.filePath
  | .hook h => h.filePath
  | .context c => c.filePath
  | .utility u => u.filePath
  | .store s => s.filePath
  | .action a => a.filePath

/-- What an entity is called: a page by route, actions by path. -/
def name : Entity → String
  | .page p => p.route
  | .component c => c.name
  | .hook h => h.name
  | .context c => c.name
  | .utility u => u.name
  | .store s => s.name
  | .action a => a.relativePath

/-- The kind of an entity; pages have several. -/
def kind : Entity → String
  | .page p => p.kind.stem
  | .component _ => "component"
  | .hook _ => "hook"
  | .context _ => "context"
  | .utility _ => "utility"
  | .store _ => "store"
  | .action _ => "action"

end Entity

/-- Why a registry cannot be made: a path has no name to give. -/
structure RegistryError where
  path : Path

/-- The message about a path without a name. -/
def RegistryError.message [Host] (e : RegistryError) : String :=
  "PosixPath(" ++ String.ofList (Text.quoted e.path.toString.toList) ++ ") has an empty name"

/-- What a registered name stands for. -/
inductive RegistryKind where
  | component
  | page
  deriving DecidableEq

/-- How a kind is named. -/
def RegistryKind.label : RegistryKind → String
  | .component => "component"
  | .page => "page"

/-- A name with the path to import it from. -/
structure RegistryEntry where
  name : String
  path : String
  kind : RegistryKind
  deriving DecidableEq

/-- What follows the last occurrence of a part. -/
def afterLastPart? (part : List Char) : List Char → Option (List Char)
  | [] => none
  | c :: rest =>
    match afterLastPart? part rest with
    | some found => some found
    | none => if part.isPrefixOf (c :: rest) then some ((c :: rest).drop part.length) else none

/-- What a registry shows of a path: the part below the last source directory. -/
def registryTail (filePath : List Char) : List Char :=
  let path := filePath.map fun c => if c = '\\' then '/' else c
  (afterLastPart? "/src/".toList path).getD (Text.afterLast '/' path)

/-- The import path of a file, without its suffix. -/
def registryPath (filePath : String) : Except RegistryError String :=
  let path := Path.ofString (String.ofList (registryTail filePath.toList))
  if path.name.isEmpty then .error ⟨path⟩
  else .ok ({ path with names := path.names.dropLast ++ [stemOf path.name] }).toString

namespace Catalog

/-- The page that serves a route; a page proper is preferred. -/
def findPage (c : Catalog) (route : String) : Option Page :=
  (c.pages.find? fun page => page.route == route && page.kind == .page).or
    (c.pages.find? (·.route == route))

/-- The component of a name, else in other case, else exporting it. -/
def findComponent (c : Catalog) (name : String) : Option Component :=
  (c.components.find? (·.name == name)).or (c.components.find? fun component =>
      Text.lowerString component.name == Text.lowerString name || component.exports.contains name)

/-- All entities of a catalog. -/
def entities (c : Catalog) : List Entity :=
  c.pages.map .page ++ c.components.map .component ++ c.hooks.map .hook ++
    c.contexts.map .context ++ c.utilities.map .utility ++ c.stores.map .store ++
    c.serverActionFiles.map .action

/-- The entities of a file, by an absolute or a relative path. -/
def entitiesForFile (c : Catalog) (file : String) : List Entity :=
  let wanted := ((Path.ofString c.projectPath).join (.ofString file)).toString
  c.entities.filter (·.filePath == wanted)

/-- The entry of a component. -/
def componentEntry (component : Component) : Except RegistryError RegistryEntry :=
  (registryPath component.filePath).map fun path => ⟨component.name, path, .component⟩

/-- The entry of a page. -/
def pageEntry (page : Page) : Except RegistryError RegistryEntry :=
  (registryPath page.filePath).map fun path => ⟨(Path.ofString page.fileName).stem, path, .page⟩

/-- Import paths by name: the last component counts, then a page. -/
def registry (c : Catalog) : Except RegistryError (Keyed RegistryEntry) := do
  let components ← c.components.mapM componentEntry
  let pages ← c.pages.mapM pageEntry
  let table : Keyed RegistryEntry := components.foldl (fun table e => table.put e.name e) []
  return pages.foldl (fun table e => table.putNew e.name e) table

/-- How many there are of each kind. -/
def counts (c : Catalog) : Keyed Nat :=
  [("pages", c.pages.countP (·.kind == .page)), ("layouts", c.pages.countP (·.roles.layout)),
   ("components", c.components.length), ("hooks", c.hooks.length),
   ("contexts", c.contexts.length), ("utilities", c.utilities.length),
   ("stores", c.stores.length), ("server_action_files", c.serverActionFiles.length),
   ("api_routes", c.apiRoutes.length + c.pages.countP (·.roles.apiRoute)),
   ("edges", c.edges.length)]

end Catalog

end SiteAtlas
