import SiteAtlas.Tree.Listing

/-!
# Projects

A directory of a file tree, with the names of directories that scans pass over. Files are listed as
they lie in the tree; whether all paths on the way can be looked up, a scan asks once, of everything
below the root (`Catalog.lookups`).
-/

namespace SiteAtlas

/-- A project to scan. -/
structure Project where
  tree : Tree
  root : Path
  /-- Names of directories that are passed over. -/
  ignored : List String

namespace Project

/-- Directories of dependencies, build results and caches. -/
def alwaysIgnored : List String :=
  ["node_modules", ".next", ".nuxt", "dist", "build", "out", ".git", ".turbo", ".vercel", ".cache",
   "coverage", ".explorer", ".storybook"]

/-- A project with more directories to pass over. -/
def withIgnored (tree : Tree) (root : Path) (more : List String) : Project :=
  ⟨tree, root, alwaysIgnored ++ more⟩

/-- Routing directories may hold any directory but this. -/
def routeIgnored : List String :=
  ["node_modules"]

/-- Source files below a directory, tests and ignored apart. -/
def filesBelow (p : Project) (directory : Path) : List Path :=
  p.tree.sourceFiles directory { skipDirectories := p.ignored }

/-- The source files right in a directory, tests apart. -/
def filesIn (p : Project) (directory : Path) : List Path :=
  p.tree.sourceFiles directory { recursive := false, skipDirectories := p.ignored }

/-- Source files that may be routes. -/
def routeFilesBelow (p : Project) (directory : Path) : List Path :=
  p.tree.sourceFiles directory { skipDirectories := routeIgnored }

/-- Those of the given directories of the project that exist. -/
def existing (p : Project) (directories : List String) : List Path :=
  (directories.map (p.root / ·)).filter p.tree.isDirectory

/-- Directories of special files. -/
def appDirectories (p : Project) : List Path :=
  p.existing ["app", "src/app"]

/-- Directories of page files. -/
def pageDirectories (p : Project) : List Path :=
  p.existing ["pages", "src/pages"]

end Project

end SiteAtlas
