import SiteAtlas.Source.Export

/-!
# Exported declarations by role

Exported components, hooks and server functions, told apart by spelling and form.
-/

namespace SiteAtlas.Source.Declared

open Pattern Export

/-- The name of a component. -/
def componentName : Pattern :=
  capital ++ many wordChar

/-- A name that begins with `use` and a capital. -/
def hookName : Pattern :=
  text "use" ++ capital ++ many wordChar

/-- An equals sign with blanks before it. -/
def assigned : Pattern :=
  blanks ++ char '='

/-- The keyword `const` after `export`. -/
def exportedConst : Pattern :=
  keyword ++ text "const" ++ blanks1

/-- The keyword `function` after `export`, with or without `async`. -/
def exportedFunction : Pattern :=
  keyword ++ optionalAsync ++ functionKeyword

/-- Captures of all matches. -/
def captured (p : Pattern) (content : List Char) : List (List Char) :=
  (p.findAll content).map (·.group 1)

/-- The capture of the first match. -/
def firstCaptured (p : Pattern) (content : List Char) : List (List Char) :=
  (p.find? content).toList.map (·.group 1)

/-- A default component by name. -/
def defaultComponent : Pattern :=
  defaultKeyword ++ capture 1 componentName ++ blanks ++ oneOf ";\n"

/-- A declaration of a name. -/
def declarationOf (name : List Char) : Pattern :=
  texts ["const", "let", "var", "function", "class"] ++ blanks1 ++ chars name ++ wordEdge

/-- The name that is exported as the default, if it is declared in the same source. -/
def declaredDefault (content : List Char) : List (List Char) :=
  (firstCaptured defaultComponent content).filter fun name =>
    (declarationOf name).occursIn content

/-- A component in a wrapper. -/
def wrappedComponent : Pattern :=
  exportedConst ++ capture 1 componentName ++ assigned ++ blanks ++
    optional (text "React.") ++ texts ["forwardRef", "memo"]

/-- The exported components of a source, each once. -/
def componentNames (content : List Char) : List String :=
  (Text.unique
    (firstCaptured (defaultKeyword ++ optionalAsync ++ functionKeyword ++ capture 1 componentName)
        content ++
      firstCaptured (defaultKeyword ++ text "class" ++ blanks1 ++ capture 1 componentName)
        content ++
      captured (exportedFunction ++ capture 1 componentName) content ++
      captured (exportedConst ++ capture 1 componentName ++ assigned) content ++
      declaredDefault content ++
      captured wrappedComponent content)).map String.ofList

/-- Forms of exported hooks. -/
def hookForms : List Pattern :=
  [exportedFunction ++ capture 1 hookName, exportedConst ++ capture 1 hookName ++ assigned,
   defaultKeyword ++ functionKeyword ++ capture 1 hookName]

/-- The exported hooks of a source, each once. -/
def hookNames (content : List Char) : List String :=
  (Text.unique (hookForms.flatMap (captured · content))).map String.ofList

/-- Something spelled like a hook is exported. -/
def hookDefinition : Pattern :=
  keyword ++ .either (text "const") (.either (text "function") (text "default" ++ blanks1 ++
    text "function")) ++ blanks1 ++ text "use" ++ capital

/-- Whether something spelled like a hook is exported. -/
def definesHook (content : List Char) : Bool :=
  hookDefinition.occursIn content

/-- An optional `async` before a function value. -/
def valueAsync : Pattern :=
  optional (text "async" ++ blanks)

/-- Forms of exported functions. -/
def functionForms : List Pattern :=
  [exportedFunction ++ capture 1 word,
   exportedConst ++ capture 1 word ++ assigned ++ blanks ++ valueAsync ++ char '(',
   exportedConst ++ capture 1 word ++ assigned ++ blanks ++ valueAsync ++
     .either (char '(' ++ many (noneOf ")") ++ char ')') word ++ blanks ++ text "=>"]

/-- The functions that a server module offers, each once. -/
def functionNames (content : List Char) : List String :=
  (Text.unique (functionForms.flatMap (captured · content))).map String.ofList

end SiteAtlas.Source.Declared
