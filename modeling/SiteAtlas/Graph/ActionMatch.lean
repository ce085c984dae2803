import SiteAtlas.Alias.Resolution
import SiteAtlas.Catalog.Entity

/-!
# Imports of server actions

Whether an import means a file of server actions. A relative one has to lead to the file, any other
to end like its path, segment by segment, after an alias is taken off. Source suffixes and a final
index name do not count.
-/

namespace SiteAtlas

open Pattern

/-- A source suffix at the end. -/
def finalSuffix : Pattern :=
  char '.' ++ .either (text "ts" ++ optional (char 'x')) (text "js" ++ optional (char 'x')) ++
    lastLineEnd

/-- A path text without suffix, and with slashes only. -/
def withoutSuffix (path : List Char) : List Char :=
  finalSuffix.eraseAll (path.map fun c => if c = '\\' then '/' else c)

/-- An index name at the end. -/
def finalIndex : Pattern :=
  text "/index" ++ lastLineEnd

/-- Texts that an import may end an action's path with. -/
def actionTails (relativePath : List Char) : List (List Char) :=
  let path := withoutSuffix relativePath
  if "/index".toList.isSuffixOf path then [path, path.take (path.length - "/index".length)]
  else [path]

/-- Whether a tail is all of a path or follows a slash in it. -/
def endsWithTail (path tail : List Char) : Bool :=
  path == tail || ('/' :: tail).isSuffixOf path

/-- Whether what is left of a specifier ends a path. -/
def tailMatches (relativePath rest : List Char) : Bool :=
  let tail := Text.trimWhile (· == '/') rest
  !tail.isEmpty && (actionTails relativePath).any (endsWithTail · tail)

/-- What a specifier leaves to compare, after an alias or without suffix. -/
def comparedTail (table : AliasTable) (specifier : List Char) : List Char :=
  match table.openKeys.find? fun key => key.toList.isPrefixOf specifier with
  | some key => specifier.drop key.length
  | none => withoutSuffix specifier

/-- Whether an import specifier means a file of server actions. -/
def matchesAction (table : AliasTable) (specifier : List Char) (action : ServerActionFile)
    (importer : Path) : Bool :=
  if AliasTable.isRelative specifier then
    let target := withoutSuffix action.filePath.toList
    let resolved := withoutSuffix (AliasTable.relativeTarget specifier importer)
    resolved == target || resolved == finalIndex.eraseAll target
  else tailMatches action.relativePath.toList (comparedTail table specifier)

end SiteAtlas
