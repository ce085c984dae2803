import SiteAtlas.Data.Json.Comments
import SiteAtlas.ScanError

/-!
# Path aliases

Compiler configurations give short names to directories. An alias matches a specifier exactly or as
its beginning. `@/` and `~/` are always there, for the source directory and the project itself.
-/

namespace SiteAtlas

open SiteAtlas.Data (Value)
open Pattern

/-- What an alias stands for. -/
structure AliasTarget where
  /-- Whether the alias matches only the whole of a specifier. -/
  exact : Bool
  /-- Path texts of directories, in order of preference. -/
  directories : List String
  deriving DecidableEq, Inhabited

/-- An alias of a project. -/
structure Alias where
  /-- What specifiers begin with, or are. -/
  key : String
  target : AliasTarget
  deriving DecidableEq, Inhabited

/-- The aliases of a project, longest key first. -/
structure AliasTable where
  configFile : Option Path
  aliases : List Alias

namespace AliasTable

/-- Names of configuration files, in order. -/
def configFiles : List String :=
  ["tsconfig.json", "jsconfig.json"]

section

variable [Host]

/-- The value in a configuration file; none if missing or malformed. -/
def readConfig (tree : Tree) (file : Path) : Except ScanError (Option Value) := do
  if ← (tree.checkFile file).mapError .lookup then
    match tree.readText? file with
    | some content =>
      (Data.Json.readIfWellFormed Host.configRoom (Data.Json.strip content)).mapError .configuration
    | none => return none
  else return none

/-- The first readable configuration file, with its value. -/
def config (tree : Tree) (root : Path) : Except ScanError (Option (Path × Value)) :=
  configFiles.findSomeM? fun name => do
    return (← readConfig tree (root / name)).map (root / name, ·)

end

/-- The compiler options in a configuration. -/
def options (config : Option (Path × Value)) : Keyed Value :=
  match config.bind fun (_, value) => value.entry? "compilerOptions" with
  | some (.table entries) => entries
  | _ => []

/-- An entry of a table unless it is absent or says nothing. -/
def meaningful? (table : Keyed Value) (key : String) : Option Value :=
  (table.get? key).filter (!·.isVoid)

section

variable [Host]

/-- The directory that targets are relative to. -/
def baseDirectory (options : Keyed Value) : String :=
  ((meaningful? options "baseUrl").map (·.plain)).getD "."

end

/-- A star at the end, with a slash before it or not. -/
def finalStar : Pattern :=
  optional (char '/') ++ char '*' ++ lastLineEnd

/-- Two path texts joined and normalised. -/
def joinNormal (a b : List Char) : List Char :=
  PathText.normalize (PathText.join a b)

/-- The directory that a target stands for. -/
def targetDirectory [Host] (root base : String) (target : Value) : String :=
  String.ofList (PathText.normalize (PathText.join (PathText.join root.toList base.toList)
    (finalStar.eraseAll target.plain.toList)))

/-- Whether a key is open at its end. -/
def endsWithStar (pattern : String) : Bool :=
  "*".toList.isSuffixOf pattern.toList

/-- An alias pattern without the star at its end. -/
def keyOf (pattern : String) : String :=
  if endsWithStar pattern then String.ofList pattern.toList.dropLast else pattern

/-- Declared aliases: only lists count, and the last declaration of a key. -/
def declared [Host] (root base : String) (paths : Keyed Value) : Keyed AliasTarget :=
  paths.foldl (fun table (pattern, value) =>
    match value with
    | .list targets =>
      table.put (keyOf pattern) ⟨!endsWithStar pattern, targets.map (targetDirectory root base)⟩
    | _ => table) []

/-- The keys that always have an alias. -/
def defaultKeys : List String :=
  ["@/", "~/"]

/-- What the default keys stand for. -/
def defaultTarget (root : String) : AliasTarget :=
  ⟨false, [String.ofList (joinNormal root.toList "src".toList), root]⟩

/-- Aliases with the default keys among them. -/
def withDefaults (root : String) (table : Keyed AliasTarget) : Keyed AliasTarget :=
  defaultKeys.foldl (fun table key => table.putNew key (defaultTarget root)) table

/-- Declarations of aliases in compiler options. -/
def declaredPaths (options : Keyed Value) : Keyed Value :=
  match options.get? "paths" with
  | some (.table entries) => entries
  | _ => []

/-- The aliases of a configuration for the project at a root. -/
def ofConfig [Host] (root : Path) (config : Option (Path × Value)) : AliasTable :=
  let options := options config
  let table := withDefaults root.toString
    (declared root.toString (baseDirectory options) (declaredPaths options))
  { configFile := config.map (·.1)
    aliases := (table.map fun (key, target) => ⟨key, target⟩).mergeSort fun a b =>
      decide (b.key.length ≤ a.key.length) }

/-- The aliases of the project at a normalised root. -/
def ofProject [Host] (tree : Tree) (root : Path) : Except ScanError AliasTable :=
  (config tree root).map (ofConfig root)

/-- Keys of aliases that match beginnings of specifiers. -/
def openKeys (table : AliasTable) : List String :=
  (table.aliases.filter fun a => !a.key.isEmpty && !a.target.exact).map (·.key)

end AliasTable

end SiteAtlas
