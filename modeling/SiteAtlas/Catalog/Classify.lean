import SiteAtlas.Catalog.FactTable
import SiteAtlas.Catalog.StoreDetection
import SiteAtlas.Project.Pages

/-!
# Classification of files

What a source file is, by the facts that are known about it; without facts it is nothing.
-/

namespace SiteAtlas.Classify

open Pattern Source.Export Source.Declared
open SiteAtlas.Source (Fact Directive.mentionsServer Props.extract)

/-- A page with what its file imports, links to and accesses. -/
def page? (facts : FactTable) (candidate : PageCandidate) : Option Page :=
  if candidate.analyze then
    (facts.fact? (.ofString candidate.page.filePath)).map fun fact =>
      { candidate.page with
        components := fact.importedNames true
        linksTo := fact.links
        dataDependencies := fact.dataDependencies }
  else some candidate.page

/-- Whether an index file only passes on exports. -/
def onlyPassesOn (file : Path) (content : List Char) : Bool :=
  file.stem == "index" &&
    !(["function", "=>", "forwardRef"].any fun part => Text.contains part.toList content)

/-- The component of a file, if it renders. -/
def component? (facts : FactTable) (file : Path) : Option Component :=
  match facts.fact? file with
  | none => none
  | some fact =>
    if onlyPassesOn file fact.content || !fact.rendersMarkup then none
    else
      let name := (componentNames fact.content).head?.getD file.stem
      some
        { name, filePath := file.toString, fileName := file.name, isClient := fact.isClient
          props := Props.extract fact.content name.toList
          imports := fact.importedNames false
          exports := fact.exports
          dataDependencies := fact.dataDependencies
          importRecords := fact.imports }

/-- A name that is spelled like a hook. -/
def hookMention : Pattern :=
  text "use" ++ capital ++ word

/-- Names spelled like hooks in a source, each once. -/
def hookMentions (content : List Char) : List String :=
  (Text.unique ((hookMention.findAll content).map (·.text))).map String.ofList

/-- The number of mentioned hooks that are kept. -/
def mentionLimit : Nat := 10

/-- The hooks of a file: those it exports, or one of the file's name. -/
def hooks (facts : FactTable) (file : Path) : List Hook :=
  match facts.fact? file with
  | none => []
  | some fact =>
    let exported := hookNames fact.content
    let names :=
      if exported.isEmpty then (if definesHook fact.content then [file.stem] else []) else exported
    names.map fun name =>
      { name, filePath := file.toString, fileName := file.name
        dependencies := ((hookMentions fact.content).filter (· != name)).take mentionLimit }

/-- A context that is created, its name captured as 1. -/
def contextDefinition : Pattern :=
  optional keyword ++ texts ["const", "let"] ++ blanks1 ++ capture 1 word ++ assigned ++ blanks ++
    optional (text "React.") ++ text "createContext"

/-- A provider that is declared, its name captured as 1. -/
def providerDefinition : Pattern :=
  texts ["const", "function"] ++ blanks1 ++ capture 1 (many wordChar ++ text "Provider") ++ wordEdge

/-- The declaration of a provider, its name captured as 1. -/
def providerNamed (base : List Char) : Pattern :=
  texts ["const", "function"] ++ blanks1 ++ capture 1 (chars base ++ text "Provider") ++ wordEdge

/-- The name of a context without its usual ending. -/
def contextBase (name : List Char) : List Char :=
  if "Context".toList.isSuffixOf name then name.take (name.length - "Context".length) else name

/-- The provider of that name, else any, else an assumed one. -/
def providerOf (content : List Char) (context : List Char) : String :=
  match firstCaptured (providerNamed (contextBase context)) content,
      firstCaptured providerDefinition content with
  | exact :: _, _ => String.ofList exact
  | [], any :: _ => String.ofList any
  | [], [] => String.ofList (context ++ "Provider".toList)

/-- The contexts that a file creates. -/
def contexts (facts : FactTable) (file : Path) : List Context :=
  match facts.fact? file with
  | none => []
  | some fact =>
    if !Text.contains "createContext".toList fact.content then []
    else
      let defined := Text.unique (captured contextDefinition fact.content)
      let names := if defined.isEmpty then [file.stem.toList] else defined
      names.map fun name =>
        { name := String.ofList name, providerName := providerOf fact.content name
          filePath := file.toString
          fileName := file.name }

/-- Markup after an arrow. -/
def arrowMarkup : Pattern :=
  text "=>" ++ blanks ++ optional (char '(') ++ blanks ++ char '<'

/-- Whether a source looks as if it rendered something. -/
def looksLikeMarkup (content : List Char) : Bool :=
  arrowMarkup.occursIn content ||
    (Text.contains "return".toList content && (char '<' ++ capital).occursIn content)

/-- A constant or function spelled like a hook is exported. -/
def exportedHook : Pattern :=
  keyword ++ texts ["const", "function"] ++ blanks1 ++ text "use" ++ capital

/-- An exported declaration of any kind, its name captured as 1. -/
def exportedDeclaration : Pattern :=
  keyword ++ optionalAsync ++ texts ["const", "function", "class", "type", "interface"] ++
    blanks1 ++ capture 1 word

/-- A default export, its name captured as 1. -/
def exportedDefault : Pattern :=
  defaultKeyword ++ optional functionKeyword ++ capture 1 word

/-- The names that a utility offers, each once. -/
def utilityExports (content : List Char) : List String :=
  (Text.unique (captured exportedDeclaration content ++
    firstCaptured exportedDefault content)).map String.ofList

/-- The utility of a file that exports, without hooks and contexts. -/
def utility? (facts : FactTable) (file : Path) : Option Utility :=
  match facts.fact? file with
  | none => none
  | some fact =>
    if looksLikeMarkup fact.content || exportedHook.occursIn fact.content ||
        Text.contains "createContext".toList fact.content then none
    else
      let exports := utilityExports fact.content
      if exports.isEmpty then none
      else some { name := file.stem, filePath := file.toString, fileName := file.name, exports }

/-- The store of a file, if it has one. -/
def store? (facts : FactTable) (file : Path) : Option Store :=
  ((facts.fact? file).bind fun fact => StoreDetection.detect fact.content).map
    fun (kind, exports) =>
      { name := file.stem, filePath := file.toString, fileName := file.name, kind, exports }

/-- The server actions of a file, given the root of its project. -/
def serverActions? (facts : FactTable) (root file : Path) : Option ServerActionFile :=
  match facts.fact? file with
  | none => none
  | some fact =>
    let functions := functionNames fact.content
    if !Source.Directive.mentionsServer fact.content || functions.isEmpty then none
    else some
      { filePath := file.toString
        relativePath := Text.joinStrings "/" ((file.below? root).getD [])
        exportedFunctions := functions }

end SiteAtlas.Classify
