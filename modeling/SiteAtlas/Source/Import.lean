import SiteAtlas.Keyed
import SiteAtlas.Pattern.Matching
import SiteAtlas.Text.Basic

/-!
# Import statements

Recognised by shape alone: an optional `type`, default name, namespace clause and brace list, and a
quoted source.
-/

namespace SiteAtlas.Source

/-- One import statement. -/
structure Import where
  /-- Default name, namespace name and exported names in braces. -/
  names : List String
  /-- The text between the quotes. -/
  source : String
  /-- Whether the source is a file of the project by the form of its text. -/
  isLocal : Bool
  /-- Local names of brace members by exported name. -/
  aliases : Keyed String := []
  isDefault : Bool := false
  isNamespace : Bool := false
  isTypeOnly : Bool := false
  isSideEffect : Bool := false
  namespaceName : Option String := none
  /-- Exported names of brace members with a `type` qualifier. -/
  typeNames : List String := []
  deriving DecidableEq, Inhabited

/-- The names in braces. -/
def Import.braceNames (i : Import) : List String :=
  i.names.drop ((if i.isDefault then 1 else 0) + (if i.isNamespace then 1 else 0))

/-- Beginnings of sources that name a file of the project. -/
def localBeginnings : List String :=
  [".", "@/", "~/", "#", "$"]

/-- Whether a source names a file of the project by its form. -/
def isLocalSource (source : String) : Bool :=
  localBeginnings.any fun start => start.toList.isPrefixOf source.toList

namespace Import

open Pattern

/-- An import statement: `type` is captured as 1, the default name as 2, the namespace name as 3,
the braces as 4, the source as 5. -/
def statement : Pattern :=
  text "import" ++ blanks1 ++ optional (capture 1 (text "type") ++ blanks1) ++
    optional (capture 2 word ++ blanks ++ optional (char ',') ++ blanks) ++
    optional (char '*' ++ blanks1 ++ text "as" ++ blanks1 ++ capture 3 word ++ blanks) ++
    optional (char '\x7b' ++ capture 4 (many (noneOf "\x7d")) ++ char '\x7d') ++
    blanks ++ optional (text "from" ++ blanks1) ++
    oneOf "'\"" ++ capture 5 (many1 (noneOf "'\"")) ++ oneOf "'\""

/-- A comment. -/
def comment : Pattern :=
  .either (text "//" ++ many (noneOf "\n")) (text "/*" ++ few any ++ text "*/")

/-- A leading `type` qualifier with the blanks after it. -/
def typeQualifier : Pattern :=
  textStart ++ text "type" ++ blanks1

/-- A member with a local name: exported name as 1, local one as 2. -/
def renamedMember : Pattern :=
  textStart ++ capture 1 word ++ blanks1 ++ text "as" ++ blanks1 ++ capture 2 word ++ lastLineEnd

/-- One member of a brace list. -/
structure Member where
  name : String
  localName : Option String
  isType : Bool
  deriving DecidableEq

/-- A member of a brace list. -/
def Member.ofText (item : List Char) : Member :=
  let isType := "type ".toList.isPrefixOf item
  let plain := if isType then typeQualifier.eraseAll item else item
  match renamedMember.matchStart? plain with
  | some m => ⟨m.groupString 1, some (m.groupString 2), isType⟩
  | none => ⟨String.ofList plain, none, isType⟩

/-- The members of a brace list, trimmed and not empty. -/
def members (block : List Char) : List Member :=
  (((Text.splitOn ',' (comment.eraseAll block)).map Text.trim).filter (!·.isEmpty)).map
    Member.ofText

/-- The import of a match. -/
def ofMatch (m : Match) : Import :=
  let source := m.groupString 5
  let isTypeOnly := (m.group? 1).isSome
  let braces := m.group? 4
  match m.group? 2, m.group? 3, braces with
  | none, none, none =>
    { names := [], source, isLocal := isLocalSource source, isTypeOnly, isSideEffect := true }
  | defaultName, namespaceName, _ =>
    let listed := members (braces.getD [])
    { names := (defaultName.toList ++ namespaceName.toList).map String.ofList ++ listed.map (·.name)
      source
      isLocal := isLocalSource source
      aliases := listed.foldl (fun table member =>
        match member.localName with
        | some localName => table.put member.name localName
        | none => table) []
      isDefault := defaultName.isSome
      isNamespace := namespaceName.isSome
      isTypeOnly
      namespaceName := namespaceName.map String.ofList
      typeNames := (listed.filter (·.isType)).map (·.name) }

/-- The imports of a source. -/
def extract (content : List Char) : List Import :=
  (statement.findAll content).map ofMatch

/-- Names brought in as values. -/
def valueNames (i : Import) : List String :=
  if i.isSideEffect || i.isTypeOnly then [] else i.names.filter fun n => !i.typeNames.contains n

end Import

/-- Names that imports bring in as values. -/
def importedNames (imports : List Import) (localOnly : Bool) : List String :=
  (imports.filter fun i => !localOnly || i.isLocal).flatMap Import.valueNames

end SiteAtlas.Source
