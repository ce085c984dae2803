import SiteAtlas.Text.Basic

/-!
# Paths

A path is a row of names, under a root or relative. Empty names and single dots are dropped when a
path is read; double dots stay, and are resolved in path *texts*, at the end.
-/

namespace SiteAtlas

/-- Where a path begins. -/
inductive PathRoot where
  /-- At no fixed place. -/
  | relative
  /-- At the root directory. -/
  | slash
  /-- At a root that is written with two slashes. -/
  | doubleSlash
  deriving DecidableEq, Inhabited

/-- The slashes of a root. -/
def PathRoot.text : PathRoot → String
  | .relative => ""
  | .slash => "/"
  | .doubleSlash => "//"

/-- A path as its root and names. -/
structure Path where
  root : PathRoot
  names : List String
  deriving DecidableEq, Inhabited

/-- The root of a path text. -/
def rootOf (cs : List Char) : PathRoot :=
  match (cs.takeWhile (· == '/')).length with
  | 0 => .relative
  | 2 => .doubleSlash
  | _ => .slash

namespace Path

/-- The names between slashes, empty ones and dots apart. -/
def namesOf (cs : List Char) : List String :=
  ((Text.splitOn '/' cs).filter fun part => !part.isEmpty && part != ['.']).map String.ofList

/-- The path of a text. -/
def ofString (s : String) : Path :=
  ⟨rootOf s.toList, namesOf s.toList⟩

/-- Write a path; the empty path is a dot. -/
def toString (p : Path) : String :=
  if p.root = .relative && p.names.isEmpty then "."
  else p.root.text ++ Text.joinStrings "/" p.names

/-- Whether a path is absolute. -/
def isAbsolute (p : Path) : Bool :=
  p.root != .relative

/-- A path below another; an absolute path stands on its own. -/
def join (p q : Path) : Path :=
  if q.isAbsolute then q else ⟨p.root, p.names ++ q.names⟩

instance : HDiv Path String Path := ⟨fun p s => p.join (.ofString s)⟩

/-- The last name. -/
def name (p : Path) : String :=
  p.names.getLast?.getD ""

/-- The path without its last name. -/
def parent (p : Path) : Path :=
  { p with names := p.names.dropLast }

/-- All proper beginnings of a path, longest first. -/
def ancestors (p : Path) : List Path :=
  (List.range p.names.length).reverse.map fun n => { p with names := p.names.take n }

/-- The names of a path below another, if it is. -/
def below? (p base : Path) : Option (List String) :=
  if p.root = base.root && base.names.isPrefixOf p.names then
    some (p.names.drop base.names.length)
  else none

end Path

/-- A name as stem and suffix; no suffix is empty or all. -/
def splitSuffix (name : List Char) : List Char × List Char :=
  let after := (name.reverse.takeWhile (· != '.')).reverse
  let stem := name.take (name.length - after.length - 1)
  if after.isEmpty || after.length = name.length || stem.isEmpty then (name, [])
  else (stem, '.' :: after)

/-- A file name without its suffix. -/
def stemOf (name : String) : String :=
  String.ofList (splitSuffix name.toList).1

/-- The suffix of a file name with its point. -/
def suffixOf (name : String) : String :=
  String.ofList (splitSuffix name.toList).2

/-- The stem of the last name. -/
def Path.stem (p : Path) : String :=
  stemOf p.name

/-- The suffix of the last name. -/
def Path.suffix (p : Path) : String :=
  suffixOf p.name

/-- Names in the order of paths, shorter rows first. -/
def namesLE : List String → List String → Bool
  | [], _ => true
  | _ :: _, [] => false
  | a :: as, b :: bs => if a < b then true else if a = b then namesLE as bs else false

namespace PathText

/-- Join two path texts; an absolute one stands on its own. -/
def join (a b : List Char) : List Char :=
  if "/".toList.isPrefixOf b then b
  else if a.isEmpty || a.getLast? = some '/' then a ++ b
  else a ++ '/' :: b

/-- Resolve double dots after reversed names. -/
def resolveDots (rooted : Bool) : List (List Char) → List (List Char) → List (List Char)
  | kept, [] => kept.reverse
  | kept, part :: rest =>
    if part != "..".toList then resolveDots rooted (part :: kept) rest
    else match kept with
      | [] => resolveDots rooted (if rooted then [] else [part]) rest
      | last :: others =>
        if last == "..".toList then resolveDots rooted (part :: kept) rest
        else resolveDots rooted others rest

/-- The shortest text of a path, double dots resolved. -/
def normalize (cs : List Char) : List Char :=
  let root := rootOf cs
  let parts := (Text.splitOn '/' cs).filter fun part => !part.isEmpty && part != ['.']
  let text := root.text.toList ++ Text.join ['/'] (resolveDots (root != .relative) [] parts)
  if text.isEmpty then ['.'] else text

end PathText

end SiteAtlas
