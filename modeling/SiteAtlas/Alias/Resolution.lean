import SiteAtlas.Alias.Table

/-!
# Resolution of specifiers

The file that an import specifier refers to. A relative specifier is joined to the importer's
directory. Any other is tried with every alias that matches, longest key first, and every directory
of the alias. At a place the file itself is looked for, then one with a source suffix, then an
index file.
-/

namespace SiteAtlas.AliasTable

/-- What is appended to a place to find a file, in order. -/
def probeSuffixes : List String :=
  ["", ".ts", ".tsx", ".js", ".jsx", "/index.ts", "/index.tsx", "/index.js", "/index.jsx"]

/-- The file at a place, or with a suffix. -/
def probe [Host] (tree : Tree) (base : List Char) : Except LookupError (Option Path) :=
  (probeSuffixes.map fun suffix => Path.ofString (String.ofList (base ++ suffix.toList))).findM?
    tree.checkFile

/-- A relative specifier joined to the importer's directory. -/
def relativeTarget (specifier : List Char) (importer : Path) : List Char :=
  joinNormal importer.parent.toString.toList specifier

/-- Whether a specifier is relative. -/
def isRelative (specifier : List Char) : Bool :=
  ".".toList.isPrefixOf specifier

/-- What an alias leaves of a specifier; none if it does not match. -/
def remainder? (a : Alias) (specifier : List Char) : Option (List Char) :=
  if a.target.exact then if specifier = a.key.toList then some [] else none
  else if a.key.toList.isPrefixOf specifier then some (specifier.drop a.key.length)
  else none

/-- Where an alias may lead a specifier. -/
def aliasPlaces (a : Alias) (specifier : List Char) : List (List Char) :=
  match remainder? a specifier with
  | none => []
  | some rest => a.target.directories.map fun directory =>
      if rest.isEmpty then directory.toList else joinNormal directory.toList rest

/-- The file that a specifier refers to. -/
def resolve [Host] (table : AliasTable) (tree : Tree) (specifier : List Char) (importer : Path) :
    Except LookupError (Option Path) :=
  if isRelative specifier then probe tree (relativeTarget specifier importer)
  else (table.aliases.flatMap (aliasPlaces · specifier)).findSomeM? (probe tree)

end SiteAtlas.AliasTable
