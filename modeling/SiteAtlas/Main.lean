import SiteAtlas.Command.Run
import SiteAtlas.Data.Toml.Reader
import Std.Time.DateTime.Timestamp

/-!
# The command line

Reads the directories that a command line names, runs the command, and writes what it gives.
-/

namespace SiteAtlas.Main

open SiteAtlas.Command (Workspace Outcome Ending)
open SiteAtlas.Number (padded)

/-- Year, month and day of a day since 1 January 1970. -/
def dateOfDay (day : Nat) : Nat × Nat × Nat :=
  -- Years begin in March, so that a leap day is the last of its year.
  let shifted := day + 719468
  let era := shifted / 146097
  let dayOfEra := shifted % 146097
  let yearOfEra := (dayOfEra - dayOfEra / 1460 + dayOfEra / 36524 - dayOfEra / 146096) / 365
  let dayOfYear := dayOfEra - (365 * yearOfEra + yearOfEra / 4 - yearOfEra / 100)
  let month := (5 * dayOfYear + 2) / 153
  let dayOfMonth := dayOfYear - (153 * month + 2) / 5 + 1
  let calendarMonth := if month < 10 then month + 3 else month - 9
  (yearOfEra + era * 400 + (if calendarMonth ≤ 2 then 1 else 0), calendarMonth, dayOfMonth)

/-- Date and time, with microseconds unless zero. -/
def timeText (seconds nanoseconds : Nat) : String :=
  let (year, month, day) := dateOfDay (seconds / 86400)
  let clock := seconds % 86400
  let micros := nanoseconds / 1000
  padded 4 year ++ "-" ++ padded 2 month ++ "-" ++ padded 2 day ++ "T" ++
    padded 2 (clock / 3600) ++ ":" ++ padded 2 (clock / 60 % 60) ++ ":" ++ padded 2 (clock % 60) ++
    (if micros = 0 then "" else "." ++ padded 6 micros) ++ "+00:00"

/-- Where a path is in the file system. -/
def located (path : Path) :=
  (fun directory => directory / path.toString) <$> IO.currentDir

/-- Read all below a directory, dependencies apart. -/
partial def readBelow (tree : Tree) (path : Path) : IO Tree := do
  let directory ← located path
  let entries ← (try directory.readDir catch _ => pure #[])
  let mut tree := { tree with directories := path.names :: tree.directories }
  for entry in entries do
    let below := path / entry.fileName
    if ← entry.path.isDir then
      if entry.fileName != "node_modules" then tree ← readBelow tree below
    else
      let bytes ← (try some <$> IO.FS.readBinFile below.toString catch _ => pure none)
      if let some bytes := bytes then tree := tree.write below.names bytes.toList
  return tree

/-- Read a directory, noting files without contents. -/
def readProject (tree : Tree) (path : Path) : IO Tree := do
  let real ← located path
  if ← real.isDir then readBelow tree path
  else if ← real.pathExists then return tree.write path.names []
  else return tree

/-- Note what is at the place of a file to write. -/
def readTarget (tree : Tree) (path : Path) : IO Tree := do
  let real ← located path
  let parent ← located path.parent
  let tree := if ← parent.isDir then
    { tree with directories := path.parent.names :: tree.directories } else tree
  if ← real.isDir then return { tree with directories := path.names :: tree.directories }
  else if ← real.pathExists then return tree.write path.names []
  else return tree

/-- Read the settings into a tree. -/
def readSettings (tree : Tree) (home : Path) : IO Tree := do
  let file := home / "config.toml"
  let real ← located file
  if ← real.isDir then return { tree with directories := file.names :: tree.directories }
  else if ← real.pathExists then
    return tree.write file.names (← IO.FS.readBinFile file.toString).toList
  else
    let home' ← located home
    if (← home'.pathExists) && !(← home'.isDir) then return tree.write home.names []
    else return tree

/-- Where the settings are. -/
def homeDirectory (current : Path) : IO Path := do
  match ← IO.getEnv "PAGEGRAPH_HOME" with
  | some text => return current.join (.ofString text)
  | none => return Path.ofString ((← IO.getEnv "HOME").getD "/") / ".pagegraph"

/-- Write a file. -/
def writeFile (file : Place × List UInt8) : IO Unit := do
  let path : Path := ⟨.slash, file.1⟩
  IO.FS.createDirAll path.parent.toString
  IO.FS.writeBinFile path.toString ⟨file.2.toArray⟩

/-- Say how a command ended. -/
def explain [Host] : Ending → IO Unit
  | .done => pure ()
  | .refused e => do
    let stderr ← IO.getStderr
    stderr.putStrLn (Workspace.usage ++ "\n\n" ++ "Error: " ++
      e.explanation.getD "the arguments do not fit the command.")
  | .declined message => do (← IO.getStderr).putStr (String.ofList message)
  | .failed f => do (← IO.getStderr).putStrLn ("Error: " ++ f.message)

/-- Run a command line on the file system. -/
def runOn [Host] (args : List String) : IO UInt32 := do
  let current := Path.ofString (← IO.currentDir).toString
  let home ← homeDirectory current
  let now ← Std.Time.Timestamp.now
  let time := timeText now.toSecondsSinceUnixEpoch.toInt.toNat
    (now.toNanosecondsSinceUnixEpoch.toInt.toNat % 1000000000)
  let mut tree : Tree := ⟨[], [current.names]⟩
  tree ← readSettings tree home
  if let .ok request := Command.Request.read args then
    if let some project := request.project? then
      tree ← readProject tree (current.join (.ofString project)).resolve
    if let some output := request.output? then
      tree ← readTarget tree (current.join (.ofString output)).resolve
  let workspace : Command.Workspace :=
    { tree, directory := current, home, time, toml := Data.Toml.library }
  match workspace.run args with
  | .ok outcome =>
    IO.print (String.ofList outcome.output)
    outcome.files.forM writeFile
    explain outcome.ending
    return outcome.ending.code.toUInt32
  | .error e =>
    (← IO.getStderr).putStrLn ("Error: " ++ e.message)
    return 1

end SiteAtlas.Main

open SiteAtlas in
/-- Run a command line on the file system of the usual host. -/
def main (args : List String) : IO UInt32 :=
  @Main.runOn Host.usual args
