import SiteAtlas.Catalog.Query
import SiteAtlas.Console.Plain
import SiteAtlas.Console.Table
import SiteAtlas.Settings

/-!
# Reports

What the commands show about a catalog and the settings, as blocks of console output.
-/

namespace SiteAtlas.Console

open Markup (MarkupError escape)

variable [Host]

/-- A block of console output. -/
inductive Block where
  /-- A plain text. -/
  | plain (s : String)
  /-- A marked-up text. -/
  | text (markup : List Char)
  | table (t : Table)

/-- Lines with their breaks. -/
def withBreaks (lines : List (List Char)) : List Char :=
  lines.flatMap (· ++ ['\n'])

/-- The text of a block. -/
def Block.render : Block → Except MarkupError (List Char)
  | .plain s => .ok (plainLine s)
  | .text markup => (lines markup).map withBreaks
  | .table t => t.render.map withBreaks

/-- What blocks show, up to the first that cannot be shown. -/
def renderAll : List Block → List Char × Option MarkupError
  | [] => ([], none)
  | block :: rest =>
    match block.render with
    | .ok cs =>
      let (more, error) := renderAll rest
      (cs ++ more, error)
    | .error e => ([], some e)

/-- A text in a style. -/
def styled (style : String) (cs : List Char) : List Char :=
  '[' :: style.toList ++ ']' :: cs ++ "[/".toList ++ style.toList ++ [']']

/-- A text that shows as it is. -/
def escaped (s : String) : List Char :=
  escape s.toList

/-- The first items, and how many are left out; a dash for none. -/
def joined (items : List String) (limit : Nat := 6) : List Char :=
  if items.isEmpty then ['-']
  else
    let shown := Text.joinStrings ", " (items.take limit)
    escaped (if items.length > limit then shown ++ " (+" ++ toString (items.length - limit) ++ ")"
      else shown)

/-- A file path relative to the project, if it lies there. -/
def relativePath (c : Catalog) (filePath : String) : String :=
  match (Path.ofString filePath).below? (.ofString c.projectPath) with
  | some names => (Path.mk .relative names).toString
  | none => filePath

/-- The summary of a catalog. -/
def summary (c : Catalog) : List Block :=
  [.text (styled "bold" (escaped c.projectName) ++ "  framework=".toList ++
     styled "cyan" c.framework.label.toList ++ "  router=".toList ++
     styled "cyan" c.router.label.toList),
   .table
     { title := "Catalog"
       columns := [{ title := "Entity" }, { title := "Count", alignment := .right }]
       rows := c.counts.map fun (name, count) =>
         [name.toList.map fun x => if x = '_' then ' ' else x, Nat.toDigits 10 count] }]

/-- A note that a file was written. -/
def writtenNote (file : Path) : Block :=
  .text (styled "green" ['✓'] ++ " Catalog written to ".toList ++ escaped file.toString)

/-- A table of pages. -/
def pageList (c : Catalog) : List Block :=
  if c.pages.isEmpty then [.plain "No pages found."]
  else [.table
    { title := "Pages (" ++ c.router.label ++ ")"
      columns := ["Route", "Kind", "File", "Components"].map fun title => { title }
      rows := c.pages.map fun page =>
        [escaped page.route, page.kind.stem.toList, escaped (relativePath c page.filePath),
         joined page.components] }]

/-- A table of components. -/
def componentList (c : Catalog) : List Block :=
  if c.components.isEmpty then [.plain "No components found."]
  else [.table
    { title := "Components"
      columns := ["Name", "Client", "Pages", "Imported by"].map fun title => { title }
      rows := c.components.map fun component =>
        [escaped component.name, if component.isClient then "yes".toList else [],
         joined component.usedInPages, joined component.usedInComponents] }]

/-- How many names are shown. -/
def detailLimit : Nat := 20

/-- A labelled list of names. -/
def nameLine (label : String) (names : List String) : Block :=
  .text ("  ".toList ++ label.toList ++ ": ".toList ++ joined names detailLimit)

/-- The line of a property. -/
def propertyLine (p : Source.Property) : Block :=
  let value := match p.defaultValue with
    | some value => " = " ++ value
    | none => ""
  .text ("    ".toList ++ escaped p.name ++ (if p.required then [] else ['?']) ++ ": ".toList ++
    escaped p.type ++ escaped value)

/-- The lines of a closure. -/
def closureLines (closure : DependencyClosure) : List Block :=
  [nameLine "closure components" closure.components, nameLine "closure hooks" closure.hooks,
   nameLine "closure contexts" closure.contexts, nameLine "closure utilities" closure.utilities]

/-- All about a component. -/
def componentDetails (c : Catalog) (component : Component) : List Block :=
  [.text (styled "bold cyan" (escaped component.name) ++ "  ".toList ++
     escaped (relativePath c component.filePath)),
   .text ("  client component: " ++ if component.isClient then "yes" else "no").toList] ++
  (if component.props.isEmpty then []
   else .text "  props:".toList :: component.props.map propertyLine) ++
  [nameLine "used in pages" component.usedInPages,
   nameLine "used in components" component.usedInComponents] ++
  component.dataDependencies.map (fun d =>
    .text ("  data: ".toList ++ d.kind.label.toList ++ ' ' :: escaped d.source ++
      " (line ".toList ++ Nat.toDigits 10 d.line ++ [')'])) ++
  component.serverActions.map (fun r =>
    .text ("  server action: ".toList ++ escaped r.functionName ++ " from ".toList ++
      escaped r.importPath)) ++
  (component.allDependencies.map closureLines).getD []

/-- The text of a setting. -/
def settingText (s : Settings) : SettingKey → String
  | .maxWorkers => String.ofList (Data.intText s.maxWorkers)
  | .ignoreDirs => Text.joinStrings ", " s.ignoreDirs

/-- A table of settings. -/
def settingsReport (s : Settings) (file : Path) : List Block :=
  [.table
     { title := "Scan configuration", columns := [{ title := "Key" }, { title := "Value" }]
       rows := SettingKey.all.map fun key => [key.label.toList, escaped (settingText s key)] },
   .text (styled "dim" ("Config file: ".toList ++ escaped file.toString))]

end SiteAtlas.Console
