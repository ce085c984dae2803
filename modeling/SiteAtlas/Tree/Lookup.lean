import SiteAtlas.Tree.Basic

/-!
# Looking up paths

A name, and a whole path, can have only so many bytes; one that is too long cannot be looked up,
which is not finding nothing. A name too long goes unnoticed if the way to it ends before, and at a
path without bytes nothing is found.
-/

namespace SiteAtlas

/-- Why a path cannot be looked up. -/
inductive LookupError where
  /-- A name on the way, or the whole path, has too many bytes. -/
  | tooLong
  /-- A name holds the null character. -/
  | nullCharacter
  /-- A name holds a surrogate that stands for no byte. -/
  | surrogate
  deriving DecidableEq

/-- What is said about an error. -/
def LookupError.message : LookupError → String
  | .tooLong => "File name too long"
  | .nullCharacter => "lstat: embedded null character in path"
  | .surrogate => "surrogates not allowed"

/-- Whether a name of a path holds the null character. -/
def Path.hasNull (p : Path) : Bool :=
  p.names.any (·.toList.contains '\x00')

/-- Whether a name of a path holds a surrogate that stands for no byte. -/
def Path.hasSurrogate [Host] (p : Path) : Bool :=
  p.names.any fun name => name.toList.any (!Text.isNameChar ·)

namespace Tree

variable [Host]

/-- How many bytes a name can have. -/
def nameLimit : Nat := 255

/-- How many bytes a path can have. -/
def pathLimit : Nat := 4095

/-- Whether a name has too many bytes. -/
def isLongName (name : String) : Bool :=
  nameLimit < Text.byteSize name.toList

/-- Whether a name too long is looked up from a place on. -/
def meetsLongName (t : Tree) (here : Place) (names : List String) : Bool :=
  names.any isLongName &&
    ((t.follow? here (names.takeWhile (!isLongName ·))).map t.hasDirectoryAt).getD false

/-- Whether a path is too long to be looked up. -/
def isTooLong (t : Tree) (p : Path) : Bool :=
  p.isAbsolute && !p.hasNull && !p.hasSurrogate &&
    (pathLimit < Text.byteSize p.toString.toList || t.meetsLongName [] p.names)

/-- Whether a path leads to a file. -/
def checkFile (t : Tree) (p : Path) : Except LookupError Bool :=
  if t.isTooLong p then .error .tooLong else .ok (t.isFile p)

/-- Whether a path leads to a directory. -/
def checkDirectory (t : Tree) (p : Path) : Except LookupError Bool :=
  if t.isTooLong p then .error .tooLong else .ok (t.isDirectory p)

end Tree

end SiteAtlas
