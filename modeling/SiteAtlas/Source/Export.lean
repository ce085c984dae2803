import SiteAtlas.Source.Import

/-!
# Exported names

The names a consumer can import from a source, each once.
-/

namespace SiteAtlas.Source.Export

open Pattern

/-- The keyword `export` and the blanks after it. -/
def keyword : Pattern :=
  text "export" ++ blanks1

/-- `export default` and the blanks after it. -/
def defaultKeyword : Pattern :=
  keyword ++ text "default" ++ blanks1

/-- An optional `async`. -/
def optionalAsync : Pattern :=
  optional (text "async" ++ blanks1)

/-- The keyword `function` and the blanks after it. -/
def functionKeyword : Pattern :=
  text "function" ++ blanks1

/-- A default function. -/
def defaultFunction : Pattern :=
  defaultKeyword ++ optionalAsync ++ functionKeyword ++ capture 1 word

/-- A default value by name. -/
def defaultValue : Pattern :=
  defaultKeyword ++ .notAhead (texts ["function", "class", "async"]) ++ capture 1 word

/-- A default class. -/
def defaultClass : Pattern :=
  defaultKeyword ++ text "class" ++ blanks1 ++ capture 1 word

/-- Default exports; the first match of each counts. -/
def defaultForms : List Pattern :=
  [defaultFunction, defaultValue, defaultClass]

/-- Exported declarations; every match counts. -/
def declarationForms : List Pattern :=
  [keyword ++ optionalAsync ++ functionKeyword ++ capture 1 word,
   keyword ++ text "const" ++ blanks1 ++ capture 1 word,
   keyword ++ text "class" ++ blanks1 ++ capture 1 word,
   keyword ++ texts ["let", "var"] ++ blanks1 ++ capture 1 word]

/-- An export list, its text captured as 1. -/
def listForm : Pattern :=
  keyword ++ char '\x7b' ++ capture 1 (many1 (noneOf "\x7d")) ++ char '\x7d'

/-- A member with the name that consumers see captured as 2. -/
def renamedMember : Pattern :=
  capture 1 word ++ blanks1 ++ text "as" ++ blanks1 ++ capture 2 word

/-- The exported name of a member. -/
def memberName (item : List Char) : List Char :=
  let plain := Import.typeQualifier.eraseAll (Text.trim item)
  match renamedMember.find? plain with
  | some m => m.group 2
  | none => plain

/-- All names that are exported, with repetitions, in order of discovery. -/
def mentions (content : List Char) : List (List Char) :=
  defaultForms.filterMap (fun form => (form.find? content).map (·.group 1)) ++
    declarationForms.flatMap (fun form => (form.findAll content).map (·.group 1)) ++
    (listForm.findAll content).flatMap fun m => (Text.splitOn ',' (m.group 1)).map memberName

/-- The exported names of a source text, each once. -/
def extract (content : List Char) : List String :=
  (Text.unique ((mentions content).filter (!·.isEmpty))).map String.ofList

end SiteAtlas.Source.Export
