import SiteAtlas.Command.Request
import SiteAtlas.Console.Report
import SiteAtlas.Export.Dot
import SiteAtlas.Export.Html
import SiteAtlas.Export.Json
import SiteAtlas.Scan
import SiteAtlas.Tree.Target

/-!
# Running commands

A command line is run on a file tree. It gives output and files to write, and ends well, with a
refusal of its arguments, or with a failure.
-/

namespace SiteAtlas.Command

open Console (Block)

/-- What a command runs on. -/
structure Workspace where
  tree : Tree
  /-- The current directory. -/
  directory : Path
  /-- The directory of the settings file. -/
  home : Path
  /-- The time that scans are dated with. -/
  time : String
  /-- The library for the settings file. -/
  toml : Data.Toml.Library

/-- Why a command breaks off. -/
inductive Failure where
  | scan (e : ScanError)
  | settings (e : SettingsError)
  | markup (e : Markup.MarkupError)
  | target (e : Tree.TargetError) (file : Path)
  | json (e : JsonExportError)
  | encode (e : Text.EncodeError)

/-- What is said about a failure. -/
def Failure.message [Host] : Failure → String
  | .scan e => e.message
  | .settings e => e.message
  | .markup e => e.message
  | .target .notFound file => "No such file or directory: " ++ file.toString
  | .target .notADirectory file => "Not a directory: " ++ file.toString
  | .target .isADirectory file => "Is a directory: " ++ file.toString
  | .target .tooLong file => "File name too long: " ++ file.toString
  | .json e => e.message
  | .encode e => e.message

/-- How a command ends. -/
inductive Ending where
  | done
  /-- The arguments were refused. -/
  | refused (e : UsageError)
  /-- There is nothing to show or to do; the message says why. -/
  | declined (message : List Char)
  | failed (f : Failure)

/-- The exit code. -/
def Ending.code : Ending → Nat
  | .done => 0
  | .refused _ => 2
  | .declined _ => 1
  | .failed _ => 1

/-- The result of a command. -/
structure Outcome where
  output : List Char := []
  ending : Ending := .done
  /-- Files to write, in order. -/
  files : List (Place × List UInt8) := []

namespace Outcome

/-- Show blocks, failing at the first that cannot be shown. -/
def ofBlocks [Host] (blocks : List Block) : Outcome :=
  match Console.renderAll blocks with
  | (output, none) => { output }
  | (output, some e) => { output, ending := .failed (.markup e) }

/-- Go on with another outcome if all went well so far. -/
def andThen (first second : Outcome) : Outcome :=
  match first.ending with
  | .done =>
      { second with output := first.output ++ second.output, files := first.files ++ second.files }
  | _ => first

/-- Refuse the arguments. -/
def refuse (explanation : String) : Outcome :=
  { ending := .refused { explanation := some explanation } }

/-- An outcome without anything shown or done. -/
def decline (message : String) : Outcome :=
  { ending := .declined (Console.plainLine message) }

/-- End with a failure. -/
def fail (f : Failure) : Outcome :=
  { ending := .failed f }

end Outcome

namespace Workspace

variable [Host]

/-- Where the settings file is. -/
def settingsPath (w : Workspace) : Path :=
  w.home / "config.toml"

/-- The settings file of a workspace. -/
def settingsFile (w : Workspace) : SettingsFile :=
  match w.tree.read? w.settingsPath with
  | some bytes => .content bytes
  | none =>
    if w.tree.isDirectory w.settingsPath then .directory
    else if (w.home :: w.home.ancestors).any w.tree.isFile then .blocked
    else .missing

/-- A workspace with files written. -/
def withFiles (w : Workspace) (files : List (Place × List UInt8)) : Workspace :=
  { w with tree := files.foldl (fun tree (place, bytes) => tree.write place bytes) w.tree }

/-- The path that an argument means. -/
def pathOf (w : Workspace) (text : String) : Path :=
  w.directory.join (.ofString text)

/-- The directory that an argument means. -/
def directoryOf? (w : Workspace) (text : String) : Option Path :=
  if w.tree.isDirectory (w.pathOf text) then some (w.pathOf text) else none

/-- Write a text to a file, left empty if the text has no bytes. -/
def writeText (w : Workspace) (file : Path) (text : List Char) : Outcome :=
  match w.tree.target (w.directory.join file), Text.encode text with
  | .ok place, .ok bytes => { files := [(place, bytes)] }
  | .ok place, .error e => { ending := .failed (.encode e), files := [(place, [])] }
  | .error e, _ => .fail (.target e file)

/-- Write the JSON text of a catalog to a file. -/
def writeJson (w : Workspace) (file : Path) (c : Catalog) : Outcome :=
  match c.exportJson with
  | .ok text => w.writeText file text
  | .error e => .fail (.json e)

/-- Scan the directory of an argument and go on. -/
def withCatalog (w : Workspace) (settings : Settings) (project : String) (workers : Option Nat)
    (next : Catalog → Outcome) : Outcome :=
  match w.directoryOf? project with
  | none => { ending := .refused {} }
  | some directory =>
    match scan w.tree directory
      { schedule := .inOrder (workers.getD settings.maxWorkers.toNat),
        ignored := settings.ignoreDirs
        time := w.time } with
    | .error e => .fail (.scan e)
    | .ok c => next c

/-- Scan a project, show a summary and perhaps write the catalog. -/
def runScan (w : Workspace) (output : Option String) (c : Catalog) : Outcome :=
  let shown := Outcome.ofBlocks (Console.summary c)
  match output with
  | none => shown
  | some text =>
    let file := Path.ofString text
    (shown.andThen (w.writeJson file c)).andThen (.ofBlocks [Console.writtenNote file])

/-- Show components, or one of them. -/
def runComponents (name : Option String) (c : Catalog) : Outcome :=
  match name.filter (!·.isEmpty) with
  | none => .ofBlocks (Console.componentList c)
  | some name =>
    match c.findComponent name with
    | some component => .ofBlocks (Console.componentDetails c component)
    | none => .decline ("Component '" ++ name ++ "' not found.")

/-- The formats of an export. -/
def formats : List String :=
  ["json", "dot", "html"]

/-- Write a catalog to a file in a format. -/
def writeExport (w : Workspace) (format focus : String) (file : Path) (c : Catalog) : Outcome :=
  if format = "json" then w.writeJson file c
  else if format = "dot" then w.writeText file (Dot.text (.ofCatalog c focus))
  else w.writeText file (Html.text c (.ofCatalog c focus))

/-- Export a catalog, by default to a file named for the project. -/
def runExport (w : Workspace) (format focus : String) (output : Option String) (c : Catalog) :
    Outcome :=
  let file := match output with
    | some text => Path.ofString text
    | none => w.directory / (c.projectName ++ "_graph." ++ format)
  (w.writeExport format focus file c).andThen
    (.ofBlocks [.plain ("Exported graph to " ++ file.toString)])

/-- Save a setting. -/
def runSetConfig (w : Workspace) (key value : String) : Outcome :=
  let (file, saved) := Settings.save w.toml w.settingsFile key value
  let files := match file with
    | .content bytes => [(w.settingsPath.names, bytes)]
    | _ => []
  match saved with
  | .ok true => { Outcome.ofBlocks [.plain ("Set scan." ++ key ++ " = " ++ value)] with files }
  | .ok false => .decline "Could not write the config file."
  | .error (.unknownKey key) => .refuse ("Unknown setting '" ++ key ++ "'. Choose from: " ++
      Text.joinStrings ", " (SettingKey.all.map (·.label)))
  | .error (.unwritable fault) => { ending := .failed (.settings (.unwritable fault)), files }
  | .error (.unencodable e) => { ending := .failed (.settings (.unencodable e)), files }
  | .error e => .refuse ("Invalid value for " ++ key ++ ": " ++ e.message)

/-- The version of the program. -/
def version : String := "0.1.0"

/-- How to call the program. -/
def usage : String :=
  "Usage: pagegraph [--version] [--verbose] COMMAND\n\n" ++
    "Commands:\n" ++
    "  scan PROJECT [-o FILE] [--workers N]\n" ++
    "  pages PROJECT\n" ++
    "  components PROJECT [-n NAME]\n" ++
    "  export-graph PROJECT [-f FORMAT] [--focus NAME] [-o FILE]\n" ++
    "  show-config\n" ++
    "  set-config KEY VALUE"

/-- Run a request. -/
def runRequest (w : Workspace) (settings : Settings) : Request → Outcome
  | .help => .ofBlocks [.plain usage]
  | .version => .ofBlocks [.plain ("PageGraph CLI v" ++ version)]
  | .scan project output workers => w.withCatalog settings project workers (w.runScan output)
  | .pages project => w.withCatalog settings project none fun c => .ofBlocks (Console.pageList c)
  | .components project name => w.withCatalog settings project none (runComponents name)
  | .exportGraph project format focus output =>
    let format := Text.lowerString format
    if (w.directoryOf? project).isSome && !formats.contains format then
      .refuse ("Format must be one of: " ++ Text.joinStrings ", " formats)
    else w.withCatalog settings project none (w.runExport format focus output)
  | .showConfig => .ofBlocks (Console.settingsReport settings w.settingsPath)
  | .setConfig key value => w.runSetConfig key value

/-- Run a command line, unless the settings cannot be read. -/
def run (w : Workspace) (args : List String) : Except SettingsError Outcome := do
  let settings ← Settings.load w.toml w.settingsFile
  match Request.read args with
  | .error e => return { ending := .refused e }
  | .ok request => return w.runRequest settings request

end Workspace

end SiteAtlas.Command
