import SiteAtlas.Pattern.Matching
import SiteAtlas.Tree.Lookup

/-!
# Listing source files

Source files below a directory, in path order, without directories of given names and perhaps
without tests.
-/

namespace SiteAtlas.Tree

open Pattern

/-- Suffixes of source files. -/
def sourceSuffixes : List String :=
  [".tsx", ".ts", ".jsx", ".js"]

/-- The name of a test. -/
def testFile : Pattern :=
  char '.' ++ texts ["test", "spec", "stories"] ++ char '.' ++ oneOf "jt" ++ char 's' ++
    optional (char 'x') ++ lastLineEnd

/-- Whether a name is that of a test. -/
def isTestName (name : String) : Bool :=
  testFile.occursIn name.toList

/-- What a listing takes in. -/
structure ListingRule where
  /-- Whether directories below count. -/
  recursive : Bool := true
  /-- Whether test files are passed over. -/
  skipTests : Bool := true
  /-- Names of directories that are passed over. -/
  skipDirectories : List String

/-- Whether a listing takes in a file, given its names below the directory. -/
def ListingRule.takes (rule : ListingRule) (names : List String) : Bool :=
  let name := names.getLast?.getD ""
  !names.isEmpty && (rule.recursive || names.length == 1) &&
    sourceSuffixes.contains (suffixOf name) &&
    !names.dropLast.any rule.skipDirectories.contains &&
    !(rule.skipTests && isTestName name)

/-- Names below a place of all files that lie below it, in path order. -/
def namesBelow (t : Tree) (place : Place) : List (List String) :=
  (((t.files.map (·.1)).filter (isBelow · place)).map (·.drop place.length)).mergeSort namesLE

/-- The source files below a directory that a rule takes in, in path order. -/
def sourceFiles (t : Tree) (directory : Path) (rule : ListingRule) : List Path :=
  match t.place? directory with
  | none => []
  | some place =>
    if t.hasDirectoryAt place then
      ((t.namesBelow place).filter rule.takes).map fun names =>
        { directory with names := directory.names ++ names }
    else []

/-- The places of all files and directories, each with all places above it. -/
def entries (t : Tree) : List Place :=
  (t.files.map (·.1) ++ t.directories).flatMap fun entry =>
    (List.range (entry.length + 1)).map entry.take

/-- Whether a listing looks up an entry: directory or source file. -/
def ListingRule.looksUp (rule : ListingRule) (isDirectory : Bool) (names : List String) : Bool :=
  let isNamed := sourceSuffixes.contains (suffixOf (names.getLast?.getD ""))
  if rule.recursive then isDirectory || isNamed else names.length == 1 && isNamed

/-- The paths below a directory that are looked up for a listing. -/
def lookedUp (t : Tree) (directory : Path) (rule : ListingRule) : List Path :=
  match t.place? directory with
  | none => []
  | some place =>
    let isLookedUp (entry : Place) : Bool :=
      isBelow entry place && rule.looksUp (t.hasDirectoryAt entry) (entry.drop place.length)
    (t.entries.filter isLookedUp).map fun entry =>
      { directory with names := directory.names ++ entry.drop place.length }

/-- The listing of a directory, unless a path is too long. -/
def lookupSourceFiles [Host] (t : Tree) (directory : Path) (rule : ListingRule) :
    Except LookupError (List Path) := do
  if ← t.checkDirectory directory then
    if (t.lookedUp directory rule).any t.isTooLong then throw .tooLong
    return t.sourceFiles directory rule
  else return []

end SiteAtlas.Tree
