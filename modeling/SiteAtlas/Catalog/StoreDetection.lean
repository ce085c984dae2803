import SiteAtlas.Catalog.Entity
import SiteAtlas.Source.Declared

/-!
# Detection of stores

The state library that a source uses: the first of a fixed order that shows.
-/

namespace SiteAtlas.StoreDetection

open Pattern Source.Export Source.Declared

/-- A part occurs in a source. -/
def mentions (content : List Char) (part : String) : Bool :=
  Text.contains part.toList content

/-- A source imports from a module, in quotes of either kind. -/
def importsFrom (content : List Char) (module : String) : Bool :=
  mentions content ("from '" ++ module ++ "'") || mentions content ("from \"" ++ module ++ "\"")

/-- An optional `export`. -/
def optionalExport : Pattern :=
  optional keyword

/-- A constant up to its value, with its name captured as 1. -/
def constant : Pattern :=
  optionalExport ++ text "const" ++ blanks1 ++ capture 1 word ++ assigned ++ blanks

/-- A slice of state with its name captured as 1. -/
def sliceName : Pattern :=
  text "createSlice" ++ blanks ++ char '(' ++ blanks ++ char '\x7b' ++ many (noneOf "\x7d") ++
    text "name:" ++ blanks ++ oneOf "'\"" ++ capture 1 word ++ oneOf "'\""

/-- An exported constant with its name captured as 1. -/
def exportedConstant : Pattern :=
  exportedConst ++ capture 1 word ++ assigned

/-- Names captured by all matches of a pattern, each once. -/
def names (p : Pattern) (content : List Char) : List String :=
  (Text.unique (captured p content)).map String.ofList

/-- The state names of a source that uses slices or reducers. -/
def sliceNames (content : List Char) : List String :=
  (Text.unique ((firstCaptured sliceName content).map (· ++ "Slice".toList) ++
    captured exportedConstant content)).map String.ofList

/-- The first name that is created. -/
def createdName (content : List Char) : List String :=
  (firstCaptured (constant ++ text "create") content).map String.ofList

/-- Names of atoms and selectors. -/
def atomOrSelectorNames (content : List Char) : List String :=
  names (constant ++ texts ["atom", "selector"] ++ blanks ++ char '(') content

/-- Names of atoms. -/
def atomNames (content : List Char) : List String :=
  names (constant ++ text "atom") content

/-- Names of store classes. -/
def storeClassNames (content : List Char) : List String :=
  names (optionalExport ++ text "class" ++ blanks1 ++ capture 1 (word ++ text "Store")) content

/-- Names of proxies. -/
def proxyNames (content : List Char) : List String :=
  names (constant ++ text "proxy" ++ blanks ++ char '(') content

/-- The state library of a source, with the names of its state. -/
def detect (content : List Char) : Option (StoreKind × List String) :=
  let has := mentions content
  if has "createSlice" || has "configureStore" || has "createStore" || has "combineReducers" then
    some (.redux, sliceNames content)
  else if (has "create(" && has "zustand") || importsFrom content "zustand" then
    some (.zustand, createdName content)
  else if importsFrom content "recoil" then some (.recoil, atomOrSelectorNames content)
  else if importsFrom content "jotai" then some (.jotai, atomNames content)
  else if has "atom(\x7b" || has "selector(\x7b" then some (.recoil, atomOrSelectorNames content)
  else if has "atom(" then some (.jotai, atomNames content)
  else if has "makeObservable" || has "makeAutoObservable" || has "@observable" ||
      importsFrom content "mobx" then
    some (.mobx, storeClassNames content)
  else if has "proxy(" || importsFrom content "valtio" then some (.valtio, proxyNames content)
  else none

end SiteAtlas.StoreDetection
