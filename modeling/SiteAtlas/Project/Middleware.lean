import SiteAtlas.Catalog.Entity
import SiteAtlas.Project.Basic
import SiteAtlas.Route.MatcherList
import SiteAtlas.Route.Methods

/-!
# Middleware and request handlers

The middleware file with its matchers, and handlers where pages are files.
-/

namespace SiteAtlas.Project

/-- Where the middleware may lie, in order of preference. -/
def middlewareFiles : List String :=
  ["", "src/"].flatMap fun directory =>
    [".ts", ".tsx", ".js", ".jsx"].map fun suffix => directory ++ "middleware" ++ suffix

/-- The middleware: the first file that can be read. -/
def middleware (p : Project) : Option Middleware :=
  middlewareFiles.findSome? fun name =>
    let file := p.root / name
    (p.tree.readText? file).map fun content =>
      { filePath := file.toString, fileName := file.name
        matcherPatterns := Route.declaredMatchers content }

/-- The request handlers of a project whose pages are files. -/
def apiRoutes (p : Project) : List ApiRoute :=
  p.pageDirectories.flatMap fun directory =>
    (p.routeFilesBelow (directory / "api")).filterMap fun file =>
      (p.tree.readText? file).map fun content =>
        { route := Route.ofNames ((file.below? directory).getD []) .nextjsPages
          filePath := file.toString
          fileName := file.name
          methods := Route.methods content }

end SiteAtlas.Project
