import SiteAtlas.Tree.Lookup

/-!
# Places for new files

Where a file can be written: in a directory that exists, and not in the place of a directory.
-/

namespace SiteAtlas.Tree

/-- Why a file cannot be written. -/
inductive TargetError where
  /-- A directory on the way does not exist. -/
  | notFound
  /-- A file is on the way. -/
  | notADirectory
  /-- A directory is in the place. -/
  | isADirectory
  /-- The path is too long. -/
  | tooLong
  deriving DecidableEq

/-- Follow names from a directory on, up to the place of a file. -/
def followTo (t : Tree) : Place → List String → Except TargetError Place
  | here, [] => .ok here
  | here, name :: rest =>
    if t.hasDirectoryAt here then
      followTo t (if name = ".." then here.dropLast else here ++ [name]) rest
    else .error (if t.hasFileAt here then .notADirectory else .notFound)

/-- The place where a file of an absolute path can be written. -/
def target [Host] (t : Tree) (p : Path) : Except TargetError Place := do
  if t.isTooLong p then throw .tooLong
  let place ← t.followTo [] p.names
  if t.hasDirectoryAt place then throw .isADirectory else return place

end SiteAtlas.Tree
