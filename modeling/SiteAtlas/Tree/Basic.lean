import SiteAtlas.Path
import SiteAtlas.Text.Utf8

/-!
# File trees

A finite map from places to contents, with directories that exist for their own sake. A place is
the row of names from the root directory down. Every directory on the way to a file exists.

A name is looked up only in a directory, and a double dot leads to the one above. Relative paths
lead nowhere.
-/

namespace SiteAtlas

/-- The row of names from the root directory down. -/
abbrev Place := List String

/-- Files by place, and directories that may be empty. -/
structure Tree where
  files : List (Place × List UInt8)
  directories : List Place
  deriving Inhabited

namespace Tree

/-- The contents at a place. -/
def fileAt? (t : Tree) (place : Place) : Option (List UInt8) :=
  t.files.lookup place

/-- Whether there is a file at a place. -/
def hasFileAt (t : Tree) (place : Place) : Bool :=
  (t.fileAt? place).isSome

/-- Whether one place lies strictly below another. -/
def isBelow (place above : Place) : Bool :=
  above.isPrefixOf place && above.length < place.length

/-- Whether there is a directory at a place. -/
def hasDirectoryAt (t : Tree) (place : Place) : Bool :=
  place.isEmpty || t.directories.any (place.isPrefixOf ·) || t.files.any (isBelow ·.1 place)

/-- Follow names from a place on. -/
def follow? (t : Tree) : Place → List String → Option Place
  | here, [] => some here
  | here, name :: rest =>
    if t.hasDirectoryAt here then
      follow? t (if name = ".." then here.dropLast else here ++ [name]) rest
    else none

/-- The place of an absolute path, if all names before its last are directories. -/
def place? (t : Tree) (p : Path) : Option Place :=
  if p.isAbsolute then t.follow? [] p.names else none

/-- Whether a path leads to a file. -/
def isFile (t : Tree) (p : Path) : Bool :=
  ((t.place? p).map t.hasFileAt).getD false

/-- Whether a path leads to a directory. -/
def isDirectory (t : Tree) (p : Path) : Bool :=
  ((t.place? p).map t.hasDirectoryAt).getD false

/-- The contents of the file that a path leads to. -/
def read? (t : Tree) (p : Path) : Option (List UInt8) :=
  (t.place? p).bind t.fileAt?

/-- The text of the file that a path leads to; none if it cannot be read as text. -/
def readText? (t : Tree) (p : Path) : Option (List Char) :=
  (t.read? p).bind Text.ofBytes?

/-- Put a file at a place, instead of one that is there. -/
def write (t : Tree) (place : Place) (bytes : List UInt8) : Tree :=
  { t with files := (place, bytes) :: t.files.filter (·.1 != place) }

end Tree

end SiteAtlas
