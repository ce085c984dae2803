import SiteAtlas.Catalog.Classify
import SiteAtlas.Pattern.Expression.CharSet
import SiteAtlas.Project.Layouts
import SiteAtlas.Project.Middleware

/-!
# Building a catalog

Candidates of each kind lie in conventional directories. A file counts as the first of component,
hooks, contexts and utility that it qualifies for; stores and server actions are found apart from
that.
-/

namespace SiteAtlas

namespace Candidates

/-- Where components are looked for. -/
def componentDirectories : List String :=
  ["components", "src/components", "app/components", "src/app/components",
   "lib/components", "src/lib/components",
   "src/ui", "ui", "src/design-system", "design-system",
   "src/features", "features", "src/modules", "modules",
   "src/views", "views", "src/screens", "screens",
   "src/shared/components", "shared/components",
   "src/common/components", "common/components",
   "src/widgets", "widgets"]

/-- Where hooks are looked for. -/
def hookDirectories : List String :=
  ["hooks", "src/hooks", "lib/hooks", "src/lib/hooks", "app/hooks", "src/app/hooks",
   "src/common/hooks", "common/hooks", "src/shared/hooks", "shared/hooks",
   "src/utils/hooks", "utils/hooks"]

/-- Where contexts are looked for. -/
def contextDirectories : List String :=
  ["context", "contexts", "src/context", "src/contexts",
   "providers", "src/providers", "lib", "src/lib"]

/-- Where utilities are looked for. -/
def utilityDirectories : List String :=
  ["utils", "src/utils", "lib", "src/lib", "helpers", "src/helpers"]

/-- Where stores are looked for. -/
def storeDirectories : List String :=
  ["store", "stores", "src/store", "src/stores", "src/state", "state",
   "src/redux", "redux", "src/lib/store", "lib/store", "src/features", "features"]

/-- All directories that are listed for candidates. -/
def directories : List String :=
  componentDirectories ++ hookDirectories ++ contextDirectories ++ utilityDirectories ++
    storeDirectories

/-- Source files below several directories, each once. -/
def below (p : Project) (directories : List String) : List Path :=
  Text.unique (directories.flatMap fun directory => p.filesBelow (p.root / directory))

/-- Source files right in several directories whose stem passes a test. -/
def named (p : Project) (directories : List String) (test : String → Bool) : List Path :=
  (Text.unique (directories.flatMap fun directory => p.filesIn (p.root / directory))).filter
    (test ·.stem)

/-- Files followed by those of others that are not among them. -/
def followedBy (files others : List Path) : List Path :=
  files ++ others.filter (!files.contains ·)

/-- Whether a file only declares types. -/
def isTypeFile (file : Path) : Bool :=
  ".d.ts".toList.isSuffixOf file.name.toList

/-- Whether a stem begins like a hook. -/
def startsLikeHook (stem : String) : Bool :=
  "use".toList.isPrefixOf stem.toList

/-- Whether a stem suggests a hook. -/
def suggestsHook (stem : String) : Bool :=
  startsLikeHook stem || Text.stringContains "hook" stem

/-- Whether a stem suggests a context. -/
def suggestsContext (stem : String) : Bool :=
  Text.stringContains "Provider" stem || Text.stringContains "Context" stem

/-- A fixed text in letters of either case. -/
def anyCase (s : String) : Pattern :=
  let letter (c : Char) := Expression.CharTest.literal { ignoreCase := true } true c.toNat
  s.toList.foldr (fun c p => .seq (.one (letter c).accepts) p) .empty

/-- Whether a stem suggests a store. -/
def suggestsStore (stem : String) : Bool :=
  (Pattern.choice (["store", "slice", "atoms"].map anyCase)).occursIn stem.toList

/-- Files that may hold components. -/
def components (p : Project) : List Path :=
  below p componentDirectories

/-- Files that may hold hooks. -/
def hooks (p : Project) : List Path :=
  followedBy ((below p hookDirectories).filter fun file => file.stem != "index" && !isTypeFile file)
    (named p ["lib", "src/lib"] suggestsHook)

/-- Files that may hold contexts. -/
def contexts (p : Project) : List Path :=
  followedBy (below p contextDirectories) (named p ["components", "src/components"] suggestsContext)

/-- Files that may hold utilities. -/
def utilities (p : Project) : List Path :=
  (below p utilityDirectories).filter fun file => !startsLikeHook file.stem

/-- Files that may hold stores. -/
def stores (p : Project) : List Path :=
  followedBy ((below p storeDirectories).filter (!isTypeFile ·))
    (named p ["lib", "src/lib", "src"] suggestsStore)

/-- All source files of a project. -/
def all (p : Project) : List Path :=
  p.filesBelow p.root

end Candidates

/-- Sort items by a text. -/
def sortByText {α : Type} (key : α → String) (items : List α) : List α :=
  items.mergeSort fun a b => decide (key a ≤ key b)

/-- Sort items by two texts. -/
def sortByPair {α : Type} (key : α → String × String) (items : List α) : List α :=
  items.mergeSort fun a b => Text.pairLE (key a) (key b)

/-- Files of the four exclusive kinds, with what they hold. -/
structure Assignment where
  components : List (Path × Component)
  hooks : List (Path × List Hook)
  contexts : List (Path × List Context)
  utilities : List (Path × Utility)

namespace Assignment

/-- Files that qualify under a test, with what the test gives. -/
def qualify {α : Type} (test : Path → Option α) (files : List Path) : List (Path × α) :=
  files.filterMap fun file => (test file).map (file, ·)

/-- A list that is not empty. -/
def nonempty? {α : Type} (items : List α) : Option (List α) :=
  if items.isEmpty then none else some items

/-- Assign each file to the first kind that it qualifies for. -/
def assign (p : Project) (facts : FactTable) : Assignment :=
  let components := qualify (Classify.component? facts) (Candidates.components p)
  let claimed := components.map (·.1)
  let hooks := qualify (fun file => nonempty? (Classify.hooks facts file))
    ((Candidates.hooks p).filter (!claimed.contains ·))
  let claimed := claimed ++ hooks.map (·.1)
  let contexts := qualify (fun file => nonempty? (Classify.contexts facts file))
    ((Candidates.contexts p).filter (!claimed.contains ·))
  let claimed := claimed ++ contexts.map (·.1)
  let utilities := qualify (Classify.utility? facts)
    ((Candidates.utilities p).filter (!claimed.contains ·))
  ⟨components, hooks, contexts, utilities⟩

end Assignment

namespace Catalog

/-- Files whose facts a catalog needs. -/
def neededFiles (p : Project) (pages : List PageCandidate) : List Path :=
  (pages.filter (·.analyze)).map (fun candidate => Path.ofString candidate.page.filePath) ++
    Candidates.components p ++ Candidates.hooks p ++ Candidates.contexts p ++
    Candidates.utilities p ++ Candidates.stores p ++ Candidates.all p

/-- The catalog of pages and facts, before linking. -/
def ofFacts (p : Project) (pages : List PageCandidate) (facts : FactTable) (framework : Framework)
    (router : Router) : Catalog :=
  let assignment := Assignment.assign p facts
  { projectPath := p.root.toString, projectName := p.root.name, framework, router
    pages := sortByPair (fun page => (page.route, page.filePath))
      (pages.filterMap (Classify.page? facts))
    components := sortByPair (fun c => (c.filePath, c.name)) (assignment.components.map (·.2))
    hooks := sortByPair (fun h => (h.filePath, h.name)) (assignment.hooks.flatMap (·.2))
    contexts := sortByPair (fun c => (c.filePath, c.name)) (assignment.contexts.flatMap (·.2))
    utilities := sortByText (·.filePath) (assignment.utilities.map (·.2))
    stores := sortByText (·.filePath) ((Candidates.stores p).filterMap (Classify.store? facts))
    serverActionFiles := sortByText (·.relativePath)
      ((Candidates.all p).filterMap (Classify.serverActions? facts p.root))
    middleware := if framework = .nextjs then p.middleware else none
    apiRoutes := if framework = .nextjs then p.apiRoutes else []
    layoutHierarchy := if router = .nextjsApp then p.layouts else none }

/-- Fixed names that are looked up for a catalog. -/
def fixedNames : Router → List String
  | .nextjsApp | .nextjsPages => Candidates.directories
  | _ => Project.routeFiles ++ Candidates.directories

/-- Paths looked up for the catalog of a project whatever its files hold: those of fixed names, and
of all below the root that may count. -/
def lookups (p : Project) (router : Router) : List Path :=
  (fixedNames router).map (p.root / ·) ++ p.tree.lookedUp p.root { skipDirectories := p.ignored }

/-- The catalog of a project whose `lookups` succeed, before linking. -/
def build [Host] (p : Project) (schedule : Schedule) (framework : Framework) (router : Router) :
    Except LookupError Catalog := do
  let pages ← p.pages router
  let facts := FactTable.load p.tree schedule [] (neededFiles p pages)
  return ofFacts p pages facts framework router

end Catalog

end SiteAtlas
