import SiteAtlas.Source.DataAccess
import SiteAtlas.Source.Declared
import SiteAtlas.Source.Directive
import SiteAtlas.Source.Link
import SiteAtlas.Source.Markup
import SiteAtlas.Source.Props

/-!
# Source facts

Everything that is learned from the text of one source file.
-/

namespace SiteAtlas.Source

/-- What is learned from the text of one file. -/
structure Fact where
  imports : List Import
  exports : List String
  links : List String
  dataDependencies : List DataDependency
  isClient : Bool
  isServer : Bool
  rendersMarkup : Bool
  content : List Char

/-- Learn everything from a text. -/
def Fact.ofContent (content : List Char) : Fact :=
  { imports := Import.extract content, exports := Export.extract content
    links := Link.extract content
    dataDependencies := DataAccess.extract content
    isClient := Directive.isClient content
    isServer := Directive.isServer content
    rendersMarkup := Markup.isRendered content
    content }

/-- Names imported as values, from project files only if `localOnly`. -/
def Fact.importedNames (fact : Fact) (localOnly : Bool) : List String :=
  Source.importedNames fact.imports localOnly

end SiteAtlas.Source
