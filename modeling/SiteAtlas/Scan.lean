import SiteAtlas.Catalog.Build
import SiteAtlas.Graph.Link
import SiteAtlas.Project.Detection

/-!
# Scanning a project

A scan detects how a project is built, catalogues what is in it and links the catalog. Unreadable
files are passed over, but not a path that cannot be looked up; a root that is no directory gives an
empty catalog.
-/

namespace SiteAtlas

/-- What a scan depends on besides the files. -/
structure ScanOptions where
  /-- How the reading of files is spread. -/
  schedule : Schedule
  /-- Names of directories to pass over, besides those that always are. -/
  ignored : List String := []
  time : String := ""

/-- The catalog of a root that is no directory. -/
def Catalog.empty (root : Path) (time : String) : Catalog :=
  { projectPath := root.toString, projectName := root.name, framework := .unknown,
    router := .unknown
    scannedAt := time }

/-- An absolute path with double dots resolved, below the plain root directory. -/
def Path.resolve (p : Path) : Path :=
  { Path.ofString (String.ofList (PathText.normalize p.toString.toList)) with root := .slash }

section

variable [Host]

/-- Scan a project whose aliases, framework and router are known. -/
def scanDetected (p : Project) (table : AliasTable) (options : ScanOptions) (framework : Framework)
    (router : Router) : Except ScanError Catalog := do
  if (Catalog.lookups p router).any p.tree.isTooLong then throw (.lookup .tooLong)
  let c ← (Catalog.build p options.schedule framework router).mapError .lookup
  let c ← (c.link table).mapError .matcher
  return { c with scannedAt := options.time }

/-- Scan the project at a root that is a directory. -/
def scanProject (tree : Tree) (root : Path) (options : ScanOptions) : Except ScanError Catalog := do
  if Host.exhausted tree.fileAt? tree.hasDirectoryAt root.names then throw .stack
  let project := Project.withIgnored tree root options.ignored
  let table ← AliasTable.ofProject tree root
  let (framework, router) ← project.detect
  scanDetected project table options framework router

/-- Scan the project at a path. -/
def scan (tree : Tree) (path : Path) (options : ScanOptions) : Except ScanError Catalog := do
  if path.hasNull then throw (.lookup .nullCharacter)
  if path.hasSurrogate then throw (.lookup .surrogate)
  if ← (tree.checkDirectory path.resolve).mapError .lookup then
    scanProject tree path.resolve options
  else return .empty path.resolve options.time

end

end SiteAtlas
