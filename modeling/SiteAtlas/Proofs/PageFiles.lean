import SiteAtlas.Proofs.PageIdentity

/-!
# The parts of a routing directory

Where pages are files, each source file below a routing directory is a page, a handler or a frame.
Pages are told from handlers by their names, while handlers are listed from one directory further
down. Both cut the files in the same place, as no listing looks at the directories above it.
-/

namespace SiteAtlas

open List

namespace Project

/-- A source file below a routing directory, tests apart. -/
@[ext]
structure PageSource (p : Project) where
  directory : Path
  /-- The names of the file below the directory. -/
  names : List String
  isDirectory : directory = p.root / "pages" ∨ directory = p.root / "src/pages"
  isFile : p.tree.isFile { directory with names := directory.names ++ names } = true
  goesDown : ".." ∉ names
  isSource : suffixOf (names.getLast?.getD "") ∈ Tree.sourceSuffixes
  isOwn : "node_modules" ∉ names.dropLast
  notTest : Tree.isTestName (names.getLast?.getD "") = false

/-- What a source file below a routing directory is for. -/
inductive PagePart
  | page
  /-- It handles requests, as all files below the directory `api` do. -/
  | handler
  /-- It is outside of `api` and frames every page. -/
  | frame
  deriving DecidableEq

/-- The part, by the names below. -/
def PagePart.ofNames : List String → PagePart
  | "api" :: _ :: _ => .handler
  | names => if stemOf (names.getLast?.getD "") ∈ frameStems then .frame else .page

/-- A handler lies below `api`. -/
theorem PagePart.ofNames_eq_handler_iff (names : List String) :
    ofNames names = .handler ↔ ∃ name rest, names = "api" :: name :: rest := by
  unfold ofNames
  split
  · simp
  · next hother => exact iff_of_false (by split <;> simp) fun ⟨name, rest, h⟩ => hother name rest h

/-- Which names a listing of routes takes in. -/
theorem takes_routeIgnored (names : List String) :
    Tree.ListingRule.takes { skipDirectories := routeIgnored } names = true ↔
      suffixOf (names.getLast?.getD "") ∈ Tree.sourceSuffixes ∧ "node_modules" ∉ names.dropLast ∧
        Tree.isTestName (names.getLast?.getD "") = false := by
  by_cases hne : names = []
  · subst hne
    decide
  · have hown : names.dropLast.any routeIgnored.contains = false ↔
        "node_modules" ∉ names.dropLast := by
      rw [← forall_mem_ne']
      simp [routeIgnored]
    simp [Tree.ListingRule.takes, hne, hown, and_assoc]

/-- Pages are the files that neither handle requests nor frame other pages. -/
theorem isPageFile_iff (names : List String) (file : Path)
    (h : file.name = names.getLast?.getD "") :
    isPageFile names file = true ↔ PagePart.ofNames names = .page := by
  have hstem : file.stem = stemOf (names.getLast?.getD "") := congrArg stemOf h
  rw [isPageFile, hstem]
  unfold PagePart.ofNames
  split
  · simp
  · next hother =>
    have hnot : (names.length > 1 && names.head? = some "api") = false := by
      rcases names with _ | ⟨first, _ | ⟨second, rest⟩⟩
      · rfl
      · rfl
      · simpa using fun hfirst => hother second rest (by rw [hfirst])
    simp [hnot]

namespace PageSource

variable {p : Project}

/-- The path of a source file. -/
def file (s : PageSource p) : Path :=
  { s.directory with names := s.directory.names ++ s.names }

/-- The part of a source file. -/
def part (s : PageSource p) : PagePart :=
  .ofNames s.names

/-- A source file as a page, with the route of its names. -/
def toPage (s : PageSource p) : Page where
  route := Route.ofNames s.names .nextjsPages
  filePath := s.file.toString
  fileName := s.file.name

/-- A source file with a text as a request handler, with its route likewise. -/
def toHandler (s : PageSource p) (content : List Char) : ApiRoute where
  route := Route.ofNames s.names .nextjsPages
  filePath := s.file.toString
  fileName := s.file.name
  methods := Route.methods content

/-- A source file has names. -/
theorem names_ne_nil (s : PageSource p) : s.names ≠ [] := by
  intro h
  have hsource := s.isSource
  rw [h] at hsource
  revert hsource
  decide

/-- A source file has its last name. -/
theorem name_file (s : PageSource p) : s.file.name = s.names.getLast?.getD "" := by
  rw [Path.name, file, getLast?_append_of_ne_nil _ s.names_ne_nil]

/-- A source file lies below its directory. -/
theorem below?_file (s : PageSource p) : s.file.below? s.directory = some s.names :=
  Path.below?_append ..

/-- There is a directory above each source file. -/
theorem mem_pageDirectories (s : PageSource p) : s.directory ∈ p.pageDirectories := by
  obtain ⟨place, hplace, hmem⟩ := (Tree.isFile_below_iff s.directory s.goesDown).mp s.isFile
  refine mem_filter.mpr ⟨by simpa using s.isDirectory, ?_⟩
  rw [Tree.isDirectory, hplace]
  exact Tree.hasDirectoryAt_of_mem hmem s.names_ne_nil

end PageSource

section Partition

variable (p : Project) (hdown : p.tree.GoesDown)
include hdown

section Listings

variable (dir : Path)
  (hdir : dir = p.root / "pages" ∨ dir = p.root / "src/pages")
include hdir

/-- The listing of a routing directory holds its source files. -/
theorem mem_routeFilesBelow_iff (file : Path) : file ∈ p.routeFilesBelow dir ↔
      ∃ s : PageSource p, s.directory = dir ∧ s.file = file := by
  rw [routeFilesBelow, Tree.mem_sourceFiles_iff hdown]
  constructor
  · rintro ⟨names, rfl, hplain, hfile, htakes⟩
    obtain ⟨hsource, hown, htest⟩ := (takes_routeIgnored names).mp htakes
    exact ⟨⟨dir, names, hdir, hfile, hplain, hsource, hown, htest⟩, rfl, rfl⟩
  · rintro ⟨s, rfl, rfl⟩
    exact ⟨s.names, rfl, s.goesDown, s.isFile,
      (takes_routeIgnored _).mpr ⟨s.isSource, s.isOwn, s.notTest⟩⟩

/-- The listing that begins further down holds the handlers. -/
theorem mem_handlerFiles_iff (file : Path) : file ∈ p.routeFilesBelow (dir / "api") ↔
      ∃ s : PageSource p, s.directory = dir ∧ s.part = .handler ∧ s.file = file := by
  have hbelow (rest : List String) : Path.mk (dir / "api").root
      ((dir / "api").names ++ rest) = ⟨dir.root, dir.names ++ "api" :: rest⟩ := by
    rw [dir.div_eq "api" (by decide)]
    simp [show Path.ofString "api" = ⟨.relative, ["api"]⟩ by decide]
  rw [routeFilesBelow, Tree.mem_sourceFiles_iff hdown]
  constructor
  · rintro ⟨rest, rfl, hplain, hfile, htakes⟩
    obtain ⟨hsource, hown, htest⟩ := (takes_routeIgnored rest).mp htakes
    cases rest with
    | nil => exact absurd hsource (by decide)
    | cons name rest =>
      rw [hbelow] at hfile
      refine ⟨⟨dir, "api" :: name :: rest, hdir, hfile, ?_, hsource, ?_, htest⟩, rfl,
        rfl, (hbelow _).symm⟩
      · simpa using hplain
      · simpa using hown
  · rintro ⟨s, rfl, hpart, rfl⟩
    obtain ⟨name, rest, hnames⟩ := (PagePart.ofNames_eq_handler_iff s.names).mp hpart
    have hplain := s.goesDown
    have htakes := And.intro s.isSource (And.intro s.isOwn s.notTest)
    rw [hnames] at hplain htakes
    refine ⟨name :: rest, ?_, not_mem_of_not_mem_cons hplain, s.isFile, (takes_routeIgnored _).mpr
      ⟨htakes.1, not_mem_of_not_mem_cons htakes.2.1, htakes.2.2⟩⟩
    rw [hbelow, PageSource.file, hnames]

end Listings

/-- The pages are the source files of that part. -/
theorem mem_filePages_iff (candidate : PageCandidate) : candidate ∈ p.filePages ↔
      ∃ s : PageSource p, s.part = .page ∧ candidate = { page := s.toPage } := by
  simp only [filePages, mem_flatMap, mem_filterMap, Option.ite_none_right_eq_some,
    Option.some.injEq]
  constructor
  · rintro ⟨dir, hdir, file, hfile, hpage, rfl⟩
    obtain ⟨s, rfl, rfl⟩ := (p.mem_routeFilesBelow_iff hdown dir
      (by simpa using mem_of_mem_filter hdir) file).mp hfile
    rw [s.below?_file, Option.getD_some] at hpage ⊢
    exact ⟨s, (isPageFile_iff s.names s.file s.name_file).mp hpage, rfl⟩
  · rintro ⟨s, hpart, rfl⟩
    refine ⟨s.directory, s.mem_pageDirectories, s.file,
      (p.mem_routeFilesBelow_iff hdown s.directory s.isDirectory _).mpr ⟨s, rfl, rfl⟩, ?_⟩
    rw [s.below?_file, Option.getD_some]
    exact ⟨(isPageFile_iff s.names s.file s.name_file).mpr hpart, rfl⟩

/-- The request handlers are the readable source files of that part. -/
theorem mem_apiRoutes_iff (handler : ApiRoute) :
    handler ∈ p.apiRoutes ↔ ∃ s : PageSource p, s.part = .handler ∧
      ∃ content, p.tree.readText? s.file = some content ∧ handler = s.toHandler content := by
  simp only [apiRoutes, mem_flatMap, mem_filterMap, Option.map_eq_some_iff]
  constructor
  · rintro ⟨dir, hdir, file, hfile, content, hcontent, rfl⟩
    obtain ⟨s, rfl, hpart, rfl⟩ := (p.mem_handlerFiles_iff hdown dir
      (by simpa using mem_of_mem_filter hdir) file).mp hfile
    rw [s.below?_file, Option.getD_some]
    exact ⟨s, hpart, content, hcontent, rfl⟩
  · rintro ⟨s, hpart, content, hcontent, rfl⟩
    refine ⟨s.directory, s.mem_pageDirectories, s.file,
      (p.mem_handlerFiles_iff hdown s.directory s.isDirectory _).mpr ⟨s, rfl, hpart, rfl⟩,
      content, hcontent, ?_⟩
    rw [s.below?_file, Option.getD_some]
    rfl

variable (hplain : p.tree.PlainNames)
include hplain

/-- Source files can be told from their paths. -/
theorem PageSource.eq_of_path (s t : PageSource p) (h : s.file.toString = t.file.toString) :
    s = t := by
  have hbelow (s : PageSource p) : p.HasBelow s.file :=
    RouteArea.pages.hasBelow p hplain s.directory s.mem_pageDirectories s.file
      ((p.mem_routeFilesBelow_iff hdown s.directory s.isDirectory s.file).mpr ⟨s, rfl, rfl⟩)
  have hfile := (Path.mk.inj (HasBelow.eq_of_toString p s.file t.file (hbelow s) (hbelow t) h)).2
  have hdir : s.directory = t.directory := by
    -- One routing directory lies in the root under its own name and the other one in `src`.
    have hne : (p.root / "pages").names ++ s.names ≠ (p.root / "src/pages").names ++ t.names ∧
        (p.root / "pages").names ++ t.names ≠ (p.root / "src/pages").names ++ s.names := by
      rw [RouteArea.pages.root_div, show p.root / "src/pages" = _ from
        RouteArea.pages.root_div_source p.root]
      simp
    rcases s.isDirectory with hs | hs <;> rcases t.isDirectory with ht | ht <;>
      rw [hs, ht] at hfile ⊢
    · exact absurd hfile hne.1
    · exact absurd hfile.symm hne.2
  exact PageSource.ext hdir (append_cancel_left (hdir ▸ hfile))

/-- The files of the routing directories are split into pages, handlers and frames, each in one
part. Every file of the first part is a page once, every readable one of the second a handler once,
both with the route of their names, and nothing else is either. -/
theorem page_files_partitioned [Host] (hdistinct : p.tree.Distinct) :
    (∀ s t : PageSource p, s.file.toString = t.file.toString → s = t) ∧
    (∃ pages, p.pages .nextjsPages = .ok pages ∧ (pages.map (·.page.filePath)).Nodup ∧
      ∀ candidate, candidate ∈ pages ↔
        ∃ s : PageSource p, s.part = .page ∧ candidate = { page := s.toPage }) ∧
    (p.apiRoutes.map (·.filePath)).Nodup ∧
    ∀ handler, handler ∈ p.apiRoutes ↔ ∃ s : PageSource p, s.part = .handler ∧
      ∃ content, p.tree.readText? s.file = some content ∧ handler = s.toHandler content := by
  refine ⟨PageSource.eq_of_path p hdown hplain, ⟨p.filePages, rfl,
    (p.routedPages_filePages hplain hdistinct).nodup, p.mem_filePages_iff hdown⟩, ?_,
    p.mem_apiRoutes_iff hdown⟩
  refine RouteArea.pages.nodup_paths p hplain (p.routeFilesBelow <| · / "api")
    (fun _ => p.tree.nodup_sourceFiles hdistinct _ _) ?_ _ ApiRoute.filePath ?_
  · intro directory hdirectory file hfile
    have hknown : directory = p.root / "pages" ∨ directory = p.root / "src/pages" := by
      simpa using mem_of_mem_filter hdirectory
    obtain ⟨s, hs, -, rfl⟩ := (p.mem_handlerFiles_iff hdown directory hknown file).mp hfile
    exact (p.mem_routeFilesBelow_iff hdown directory hknown s.file).mpr ⟨s, hs, rfl⟩
  · intro directory file handler hhandler
    obtain ⟨content, -, rfl⟩ := Option.map_eq_some_iff.mp hhandler
    rfl

end Partition

/-- A project with a page and a handler of misleading names. -/
def officeProject : Project where
  tree :=
    { files := [(["r", "pages", "api", "_app.ts"], []), (["r", "src", "pages", "api.ts"], [])]
      directories := [] }
  root := ⟨.slash, ["r"]⟩
  ignored := []

/-- A page that only looks like `api`. -/
def officePage : PageSource officeProject :=
  ⟨⟨.slash, ["r", "src", "pages"]⟩, ["api.ts"],
    by decide, by decide, by decide, by decide, by decide, by decide⟩

/-- A handler that looks like a frame. -/
def officeHandler : PageSource officeProject :=
  ⟨⟨.slash, ["r", "pages"]⟩, ["api", "_app.ts"],
    by decide, by decide, by decide, by decide, by decide, by decide⟩

attribute [local instance] Host.usual

/-- The statement at an office project. -/
theorem page_files_partitioned_office :
    officeProject.tree.GoesDown ∧ officeProject.tree.PlainNames ∧ officeProject.tree.Distinct ∧
      (∃ pages, officeProject.pages .nextjsPages = .ok pages ∧
        { page := { route := "/api", filePath := "/r/src/pages/api.ts", fileName := "api.ts" } } ∈
          pages) ∧
      { route := "/api/_app", filePath := "/r/pages/api/_app.ts", fileName := "_app.ts",
        methods := ["*"] } ∈ officeProject.apiRoutes := by
  have hdown : officeProject.tree.GoesDown := by
    unfold Tree.GoesDown
    decide
  have hplain : officeProject.tree.PlainNames := by
    simp only [Tree.PlainNames, SlashFree]
    decide
  have hdistinct : officeProject.tree.Distinct := by
    unfold Tree.Distinct
    decide
  obtain ⟨-, ⟨pages, hpages, -, hmem⟩, -, hhandlers⟩ :=
    page_files_partitioned officeProject hdown hplain hdistinct
  exact ⟨hdown, hplain, hdistinct, ⟨pages, hpages, (hmem _).mpr ⟨officePage, by decide, by decide⟩⟩,
    (hhandlers _).mpr ⟨officeHandler, by decide, [], by decide, by decide⟩⟩

end Project

end SiteAtlas
