import SiteAtlas.Pattern.Matching
import SiteAtlas.Project.Kind
import SiteAtlas.Text.Basic

/-!
# Routes of files

A file serves the route that its path spells: suffix and index name are dropped, bracketed names
become parameters, and directories that only group files do not count.
-/

namespace SiteAtlas.Route

open Pattern

/-- The role of a file by its name, where routes are directories. -/
inductive SpecialFile where
  | page
  | layout
  | loading
  | error
  | template
  | notFound
  | globalError
  | default
  | route
  deriving DecidableEq, Inhabited

namespace SpecialFile

/-- All roles. -/
def all : List SpecialFile :=
  [.page, .layout, .loading, .error, .template, .notFound, .globalError, .default, .route]

/-- The stem of a special file. -/
def stem : SpecialFile → String
  | .page => "page"
  | .layout => "layout"
  | .loading => "loading"
  | .error => "error"
  | .template => "template"
  | .notFound => "not-found"
  | .globalError => "global-error"
  | .default => "default"
  | .route => "route"

/-- The special file of a stem. -/
def ofStem? (stem : String) : Option SpecialFile :=
  all.find? (·.stem == stem)

end SpecialFile

/-- A final source suffix. -/
def sourceSuffix : Pattern :=
  char '.' ++ texts ["tsx", "ts", "jsx", "js"] ++ lastLineEnd

/-- A name in brackets after three points, captured as 1: any number of segments. -/
def catchAll : Pattern :=
  char '[' ++ optional (char '[') ++ text "..." ++ capture 1 word ++ char ']' ++ optional (char ']')

/-- A name in brackets, captured as 1: one segment. -/
def bracketed : Pattern :=
  char '[' ++ capture 1 word ++ char ']'

/-- Whether a segment only groups files or fills a slot. -/
def isGrouping (segment : List Char) : Bool :=
  ("(".toList.isPrefixOf segment && ")".toList.isSuffixOf segment) || "@".toList.isPrefixOf segment

/-- The route of a segment. -/
def segmentRoute (segment : List Char) : List Char :=
  bracketed.replaceAll (fun m => ':' :: m.group 1) (catchAll.replaceAll (fun _ => ['*']) segment)

/-- The segments of a path text without its source suffix. -/
def pathSegments (path : List Char) : List (List Char) :=
  (Text.splitOn '/' (sourceSuffix.eraseAll (path.map fun c => if c = '\\' then '/' else c))).filter
    (!·.isEmpty)

/-- Whether a last segment stands for its directory. -/
def isIndexName (router : Router) (segment : List Char) : Bool :=
  let stem := String.ofList segment
  stem == "page" || stem == "index" || (router == .nextjsApp && (SpecialFile.ofStem? stem).isSome)

/-- The segments without a last one that stands for its directory. -/
def withoutIndexName (router : Router) (segments : List (List Char)) : List (List Char) :=
  match segments.getLast? with
  | some last => if isIndexName router last then segments.dropLast else segments
  | none => segments

/-- Segments that count. -/
def countedSegments (router : Router) (segments : List (List Char)) : List (List Char) :=
  (withoutIndexName router segments).filter fun s => !(router == .nextjsApp && isGrouping s)

/-- The route of a file, given by its path below the routing directory. -/
def ofFilePath (path : List Char) (router : Router) : List Char :=
  '/' :: Text.join ['/'] ((countedSegments router (pathSegments path)).map segmentRoute)

/-- The route of names. -/
def ofNames (names : List String) (router : Router) : String :=
  String.ofList (ofFilePath (Text.joinStrings "/" names).toList router)

end SiteAtlas.Route
