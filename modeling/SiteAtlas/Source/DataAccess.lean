import SiteAtlas.Pattern.Matching
import SiteAtlas.Text.Basic

/-!
# Data access

Calls that read or write remote data are recognised line by line by an ordered table of matchers, of
which the first of a family that fires claims the line. A second pass finds calls whose literal
argument stands on the next line.
-/

namespace SiteAtlas.Source

/-- The library or mechanism behind a data access. -/
inductive DataKind where
  | fetch
  | prisma
  | drizzle
  | useQuery
  | useSWR
  | serverAction
  | trpc
  | graphql
  | axios
  /-- A label that no matcher of this library gives. -/
  | other (label : String)
  deriving DecidableEq, Inhabited

namespace DataKind

/-- The name of a kind in reports. -/
def label : DataKind → String
  | .fetch => "fetch"
  | .prisma => "prisma"
  | .drizzle => "drizzle"
  | .useQuery => "useQuery"
  | .useSWR => "useSWR"
  | .serverAction => "serverAction"
  | .trpc => "trpc"
  | .graphql => "graphql"
  | .axios => "axios"
  | .other label => label

/-- The kinds that matchers give. -/
def known : List DataKind :=
  [.fetch, .prisma, .drizzle, .useQuery, .useSWR, .serverAction, .trpc, .graphql, .axios]

/-- The kind with a given name. -/
def ofLabel (label : String) : DataKind :=
  (known.find? (·.label == label)).getD (.other label)

end DataKind

/-- A call site that accesses data. -/
structure DataDependency where
  kind : DataKind
  /-- What is accessed, or a description where no literal is given. -/
  source : String
  /-- The line of the call, counted from 1. -/
  line : Nat
  deriving DecidableEq, Inhabited

namespace DataAccess

open Pattern

/-- Matchers of one family claim a line for themselves. -/
inductive Family where
  | fetch
  | axios
  deriving DecidableEq

/-- One entry of the table: a pattern for a line and how to describe what it found. -/
structure Matcher where
  kind : DataKind
  pattern : Pattern
  describe : Match → List Char → String
  family : Option Family := none

/-- A quote. -/
def quote : Pattern :=
  oneOf "'\"`"

/-- A quoted literal, captured as 1. -/
def literal : Pattern :=
  quote ++ capture 1 (many1 (noneOf "'\"`")) ++ quote

/-- An opening parenthesis with blanks around it. -/
def openCall : Pattern :=
  blanks ++ char '(' ++ blanks

/-- Type arguments, if any. -/
def typeArguments : Pattern :=
  optional (char '<' ++ many (noneOf ">") ++ char '>') ++ blanks

/-- A query call with its key, captured as 1, if the call begins with one. -/
def queryKey : Pattern :=
  text "useQuery" ++ blanks ++ typeArguments ++ char '(' ++ blanks ++ .either
      (optional (char '[') ++ blanks ++ quote ++ capture 1 (many1 (noneOf "'\"`]")) ++ quote)
      (capture 2 (char '\x7b'))

/-- What stands for the key of a query whose line does not show it. -/
def unknownQuery : String := "(query)"

/-- The key of a query, or its kind. -/
def describeQuery (line : List Char) : String :=
  match (queryKey.find? line).bind (·.group? 1) with
  | some key => String.ofList key
  | none => unknownQuery

/-- A call, or type arguments. -/
def callOrTypes : Pattern :=
  blanks ++ oneOf "<("

/-- Describe a match by its captured literal. -/
def byLiteral (m : Match) (_ : List Char) : String :=
  m.groupString 1

/-- Describe every match by the same text. -/
def always (description : String) (_ : Match) (_ : List Char) : String :=
  description

/-- A fetch of a literal. -/
def fetchLiteral : Pattern :=
  text "fetch" ++ openCall ++ literal

/-- A fetch with an address that is put together. -/
def fetchDynamic : Pattern :=
  text "fetch" ++ openCall ++ .either (char '\x60' ++ many (noneOf "`") ++ text "$\x7b")
      (many1 (.one fun c => Text.isWord c || c == '.'))

/-- Two words after a point each, captured as 1 and 2. -/
def twoSteps : Pattern :=
  char '.' ++ capture 1 word ++ char '.' ++ capture 2 word

/-- Describe a match by a name and its two captured words. -/
def dotted (name finish : String) (m : Match) (_ : List Char) : String :=
  name ++ "." ++ m.groupString 1 ++ "." ++ m.groupString 2 ++ finish

/-- All matchers, in order. -/
def matchers : List Matcher :=
  [{ kind := .fetch, pattern := fetchLiteral, describe := byLiteral, family := some .fetch },
   { kind := .fetch, pattern := fetchDynamic, describe := always "(dynamic URL)"
     family := some .fetch },
   { kind := .prisma, pattern := text "prisma" ++ twoSteps, describe := dotted "prisma" "()" },
   { kind := .drizzle
     pattern := text "db." ++ texts ["select", "insert", "update", "delete", "query"]
     describe := fun _ line => String.ofList (Text.trim line) },
   { kind := .useQuery, pattern := text "useQuery" ++ callOrTypes
     describe := fun _ line => describeQuery line },
   { kind := .useQuery, pattern := text "useMutation" ++ callOrTypes
     describe := always "(mutation)" },
   { kind := .useQuery, pattern := text "useInfiniteQuery" ++ callOrTypes
     describe := always "(infinite query)" },
   { kind := .useSWR, pattern := text "useSWR" ++ callOrTypes ++ blanks ++ literal
     describe := byLiteral },
   { kind := .useSWR, pattern := text "useSWRMutation" ++ callOrTypes ++ blanks ++ literal
     describe := fun m _ => m.groupString 1 ++ " (mutation)" },
   { kind := .trpc, pattern := text "trpc" ++ twoSteps ++ char '.' ++
       texts ["useQuery", "useMutation", "query", "mutate"]
     describe := dotted "trpc" "" },
   { kind := .trpc
     pattern := text "api" ++ twoSteps ++ char '.' ++ texts ["useQuery", "useMutation"]
     describe := dotted "api" "" },
   { kind := .graphql
     pattern := texts ["useQuery", "useMutation", "useLazyQuery", "useSubscription"] ++ openCall ++
       .either (text "gql`")
         (many1 (.one fun c => c.isUpper || c == '_') ++ char '_' ++ texts ["QUERY", "MUTATION"])
     describe := always "(GraphQL operation)" },
   { kind := .graphql
     pattern := text "client." ++ texts ["query", "mutate", "subscribe"] ++ blanks ++ char '('
     describe := always "(Apollo operation)" },
   { kind := .axios
     pattern := text "axios." ++ texts ["get", "post", "put", "patch", "delete", "request"] ++
       openCall ++ literal
     describe := byLiteral, family := some .axios },
   { kind := .axios, pattern := texts ["api", "client", "http", "instance"] ++ char '.' ++
       texts ["get", "post", "put", "patch", "delete"] ++ openCall ++ literal
     describe := byLiteral, family := some .axios },
   { kind := .serverAction, pattern := oneOf "'\"" ++ text "use server" ++ oneOf "'\""
     describe := always "Server Action" }]

/-- Run the table over one line: the findings, and the families that were claimed. -/
def scanLine (line : List Char) (number : Nat) : List DataDependency × List Family :=
  matchers.foldl (fun (found, claimed) matcher =>
    if (matcher.family.map claimed.contains).getD false then (found, claimed)
    else match matcher.pattern.find? line with
      | none => (found, claimed)
      | some m =>
        (Text.addUnique found ⟨matcher.kind, matcher.describe m line, number⟩,
          claimed ++ matcher.family.toList))
    ([], [])

/-- Lines with their numbers. -/
def numberedLines (content : List Char) : List (List Char × Nat) :=
  (Text.splitOn '\n' content).zipIdx 1

/-- The line of a match. -/
def lineOf (content : List Char) (m : Match) : Nat :=
  (content.take m.offset).count '\n' + 1

/-- A fetch whose literal address may stand on the next line. -/
def wrappedFetch : Pattern :=
  text "fetch" ++ blanks ++ char '(' ++ blanks ++ optional (char '\n') ++ blanks ++ literal

/-- A query whose key, captured as 1, may stand on the next line. -/
def wrappedQuery : Pattern :=
  text "useQuery" ++ blanks ++ typeArguments ++ char '(' ++ blanks ++ optional (char '\n') ++
    blanks ++ optional (char '[') ++ blanks ++ quote ++ capture 1 (many1 (noneOf "'\"`]")) ++ quote

/-- Findings and the lines that have a fetch. -/
structure Findings where
  found : List DataDependency
  fetchLines : List Nat

/-- The first pass, line by line. -/
def scanLines (content : List Char) : Findings :=
  let perLine := (numberedLines content).map fun (line, number) => (number, scanLine line number)
  ⟨perLine.flatMap (·.2.1), (perLine.filter (·.2.2.contains .fetch)).map (·.1)⟩

/-- Add a wrapped fetch where there is none. -/
def addWrappedFetch (content : List Char) (findings : Findings) (m : Match) : Findings :=
  let line := lineOf content m
  if findings.fetchLines.contains line then findings
  else ⟨Text.addUnique findings.found ⟨.fetch, m.groupString 1, line⟩, line :: findings.fetchLines⟩

/-- Replace the first such finding. -/
def replaceFirst (old new : DataDependency) : List DataDependency → List DataDependency
  | [] => []
  | d :: rest => if d = old then new :: rest else d :: replaceFirst old new rest

/-- Add a wrapped query, or give its key to one of unknown key. -/
def addWrappedQuery (content : List Char) (found : List DataDependency) (m : Match) :
    List DataDependency :=
  let line := lineOf content m
  let query : DataDependency := ⟨.useQuery, m.groupString 1, line⟩
  let unknown : DataDependency := ⟨.useQuery, unknownQuery, line⟩
  if found.any fun d => d.kind == .useQuery && d.line == line then
    replaceFirst unknown query found
  else Text.addUnique found query

/-- The data accesses of a source text, ordered by line. -/
def extract (content : List Char) : List DataDependency :=
  let fetched := (wrappedFetch.findAll content).foldl (addWrappedFetch content) (scanLines content)
  let queried := (wrappedQuery.findAll content).foldl (addWrappedQuery content) fetched.found
  queried.mergeSort fun a b => a.line ≤ b.line

end DataAccess

end SiteAtlas.Source
