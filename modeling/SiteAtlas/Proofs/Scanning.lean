import SiteAtlas.Proofs.Listing
import SiteAtlas.Proofs.Loading
import SiteAtlas.Scan

/-!
# Repeatable scans

A scan asks a tree a few questions, so trees that look alike have the same aliases, framework, pages
and candidates. Facts do not depend on who reads them and when. So neither the order of a tree nor
the schedule of the readers shows in a catalog.
-/

namespace SiteAtlas

namespace Project

/-- The same project in another tree. -/
def inTree (p : Project) (u : Tree) : Project :=
  { p with tree := u }

variable {p : Project} {u : Tree} (h : p.tree.LooksLike u)
include h

/-- The same source files lie below a directory. -/
theorem filesBelow_inTree : (p.inTree u).filesBelow = p.filesBelow := by
  funext dir
  rw [filesBelow, filesBelow, h.sourceFiles, inTree]

/-- The same source files lie right in a directory. -/
theorem filesIn_inTree : (p.inTree u).filesIn = p.filesIn := by
  funext dir
  rw [filesIn, filesIn, h.sourceFiles, inTree]

/-- The same source files lie below a routing directory. -/
theorem routeFilesBelow_inTree : (p.inTree u).routeFilesBelow = p.routeFilesBelow := by
  funext dir
  rw [routeFilesBelow, routeFilesBelow, h.sourceFiles, inTree]

/-- The same directories exist. -/
theorem existing_inTree : (p.inTree u).existing = p.existing := by
  funext directories
  rw [existing, existing, h.isDirectory, inTree]

/-- The routing directories of special files are the same. -/
theorem appDirectories_inTree : (p.inTree u).appDirectories = p.appDirectories := by
  rw [appDirectories, appDirectories, existing_inTree h]

/-- The routing directories of page files are the same. -/
theorem pageDirectories_inTree : (p.inTree u).pageDirectories = p.pageDirectories := by
  rw [pageDirectories, pageDirectories, existing_inTree h]

/-- The manifest is the same. -/
theorem manifest_inTree [Host] : (p.inTree u).manifest = p.manifest := by
  rw [manifest, manifest, h.readText?, h.checkFile, inTree]

/-- The same entry files declare routes. -/
theorem declaresRoutes_inTree : (p.inTree u).declaresRoutes = p.declaresRoutes := by
  rw [declaresRoutes, declaresRoutes, h.readText?, inTree]

/-- The framework and the router are the same. -/
theorem detect_inTree [Host] : (p.inTree u).detect = p.detect := by
  have happ : (p.inTree u).hasAppPage = p.hasAppPage := by
    rw [hasAppPage, hasAppPage, appDirectories_inTree h, routeFilesBelow_inTree h]
  have hfile : (p.inTree u).hasPageFile = p.hasPageFile := by
    rw [hasPageFile, hasPageFile, pageDirectories_inTree h, filesBelow_inTree h]
  have hfrom : (p.inTree u).detectFrom = p.detectFrom := by
    funext manifest
    rw [detectFrom, detectFrom, appDirectories_inTree h, pageDirectories_inTree h,
      declaresRoutes_inTree h, detectByLayout, detectByLayout, happ, hfile, declaresRoutes_inTree h]
  rw [detect, detect, manifest_inTree h, hfrom]

/-- The same files hold components by convention. -/
theorem componentFile_inTree [Host] : (p.inTree u).componentFile = p.componentFile := by
  funext component
  rw [componentFile, componentFile, filesBelow_inTree h, h.checkFile, inTree]

/-- The declared routes are the same. -/
theorem declaredRoutes_inTree : (p.inTree u).declaredRoutes = p.declaredRoutes := by
  have hcandidates : (p.inTree u).routeFileCandidates = p.routeFileCandidates := by
    rw [routeFileCandidates, routeFileCandidates, filesBelow_inTree h, h.isFile, inTree]
  rw [declaredRoutes, declaredRoutes, hcandidates, h.readText?, inTree]

/-- The pages are the same. -/
theorem pages_inTree [Host] : (p.inTree u).pages = p.pages := by
  funext router
  have happ : (p.inTree u).appPages = p.appPages := by
    rw [appPages, appPages, appDirectories_inTree h, routeFilesBelow_inTree h]
  have hfile : (p.inTree u).filePages = p.filePages := by
    rw [filePages, filePages, pageDirectories_inTree h, routeFilesBelow_inTree h]
  have hlocate : (p.inTree u).locatePage = p.locatePage := by
    funext page
    rw [locatePage, locatePage, componentFile_inTree h]
  unfold pages
  rw [happ, hfile, declaredRoutes_inTree h, hlocate]

/-- The middleware is the same. -/
theorem middleware_inTree : (p.inTree u).middleware = p.middleware := by
  rw [middleware, middleware, h.readText?, inTree]

/-- The request handlers are the same. -/
theorem apiRoutes_inTree : (p.inTree u).apiRoutes = p.apiRoutes := by
  rw [apiRoutes, apiRoutes, pageDirectories_inTree h, routeFilesBelow_inTree h, h.readText?, inTree]

/-- The layouts are the same. -/
theorem layouts_inTree : (p.inTree u).layouts = p.layouts := by
  have hfiles : (p.inTree u).layoutFiles = p.layoutFiles := by
    funext dir
    rw [layoutFiles, layoutFiles, routeFilesBelow_inTree h]
  rw [layouts, layouts, appDirectories_inTree h, hfiles]

end Project

namespace Candidates

variable {p : Project} {u : Tree} (h : p.tree.LooksLike u)
include h

/-- The same files lie below several directories. -/
theorem below_inTree : below (p.inTree u) = below p := by
  funext directories
  rw [below, below, Project.filesBelow_inTree h, Project.inTree]

/-- The same files lie right in several directories. -/
theorem named_inTree : named (p.inTree u) = named p := by
  funext directories test
  rw [named, named, Project.filesIn_inTree h, Project.inTree]

/-- The candidates of every kind are the same. -/
theorem candidates_inTree : components (p.inTree u) = components p ∧ hooks (p.inTree u) = hooks p ∧
      contexts (p.inTree u) = contexts p ∧ utilities (p.inTree u) = utilities p ∧
      stores (p.inTree u) = stores p ∧ all (p.inTree u) = all p := by
  refine ⟨?_, ?_, ?_, ?_, ?_, ?_⟩
  · rw [components, components, below_inTree h]
  · rw [hooks, hooks, below_inTree h, named_inTree h]
  · rw [contexts, contexts, below_inTree h, named_inTree h]
  · rw [utilities, utilities, below_inTree h]
  · rw [stores, stores, below_inTree h, named_inTree h]
  · rw [all, all, Project.filesBelow_inTree h, Project.inTree]

end Candidates

/-- Facts depend on the look of a tree only, not on the schedule. -/
theorem FactTable.load_looksLike {t u : Tree} (h : t.LooksLike u) (s s' : Schedule)
    (hs : s.Complete) (hs' : s'.Complete) : load u s' = load t s := by
  funext table files
  have hextract : extract? u = extract? t := by
    funext file
    rw [extract?, extract?, h.readText?]
  rw [load_eq u s' hs', load_eq t s hs, hextract]

namespace Catalog

variable {p : Project} {u : Tree} (h : p.tree.LooksLike u)
include h

/-- The same facts give the same catalog. -/
theorem ofFacts_inTree : ofFacts (p.inTree u) = ofFacts p := by
  obtain ⟨hcomponents, hhooks, hcontexts, hutilities, hstores, hall⟩ :=
    Candidates.candidates_inTree h
  funext pages facts framework router
  have hassign : Assignment.assign (p.inTree u) facts = Assignment.assign p facts := by
    rw [Assignment.assign, Assignment.assign, hcomponents, hhooks, hcontexts, hutilities]
  rw [ofFacts, ofFacts, hassign, hstores, hall, Project.middleware_inTree h,
    Project.apiRoutes_inTree h, Project.layouts_inTree h, Project.inTree]

/-- The same paths are looked up. -/
theorem any_lookups_inTree (router : Router) (test : Path → Bool) :
    (lookups (p.inTree u) router).any test = (lookups p router).any test := by
  rw [Bool.eq_iff_iff, List.any_eq_true, List.any_eq_true]
  refine exists_congr fun path => and_congr_left fun _ => ?_
  rw [lookups, lookups, List.mem_append, List.mem_append]
  exact or_congr_right (h.mem_lookedUp ..).symm

/-- The catalog is the same, whatever the schedules. -/
theorem build_inTree [Host] (s s' : Schedule) (hs : s.Complete) (hs' : s'.Complete) :
    build (p.inTree u) s' = build p s := by
  obtain ⟨hcomponents, hhooks, hcontexts, hutilities, hstores, hall⟩ :=
    Candidates.candidates_inTree h
  have hneeded : neededFiles (p.inTree u) = neededFiles p := by
    funext pages
    rw [neededFiles, neededFiles, hcomponents, hhooks, hcontexts, hutilities, hstores, hall]
  have hload : FactTable.load (p.inTree u).tree s' = FactTable.load p.tree s :=
    FactTable.load_looksLike h s s' hs hs'
  funext framework router
  rw [build, build, Project.pages_inTree h, hneeded, ofFacts_inTree h, hload]

end Catalog

/-- Trees that look alike have the same aliases. -/
theorem AliasTable.ofProject_looksLike [Host] {t u : Tree} (h : t.LooksLike u) :
    AliasTable.ofProject u = AliasTable.ofProject t := by
  funext root
  have hread : readConfig u = readConfig t := by
    funext file
    rw [readConfig, readConfig, h.readText?, h.checkFile]
  rw [AliasTable.ofProject, AliasTable.ofProject, config, config, hread]

/-- Put another time on a catalog. -/
def Catalog.datedAt (time : String) (c : Catalog) : Catalog :=
  { c with scannedAt := time }

/-- In trees that look alike, catalogs differ by time only. -/
theorem scanDetected_inTree [Host] {p : Project} {u : Tree} (h : p.tree.LooksLike u)
    (table : AliasTable) (s s' : Schedule) (hs : s.Complete) (hs' : s'.Complete)
    (ignored : List String) (time time' : String) (framework : Framework) (router : Router) :
    scanDetected (p.inTree u) table ⟨s', ignored, time'⟩ framework router =
      (scanDetected p table ⟨s, ignored, time⟩ framework router).map (Catalog.datedAt time') := by
  have htoo : (p.inTree u).tree.isTooLong = p.tree.isTooLong := h.isTooLong.symm
  unfold scanDetected
  rw [htoo, Catalog.any_lookups_inTree h, Catalog.build_inTree h s s' hs hs']
  cases (Catalog.lookups p router).any p.tree.isTooLong with
  | true => rfl
  | false =>
    change ((Catalog.build p s framework router).mapError ScanError.lookup >>= _) =
      ((Catalog.build p s framework router).mapError ScanError.lookup >>= _).map _
    cases Catalog.build p s framework router with
    | error => rfl
    | ok c =>
      change ((c.link table).mapError ScanError.matcher >>= _) =
        ((c.link table).mapError ScanError.matcher >>= _).map _
      cases c.link table <;> rfl

/-- Scans of trees that look alike differ by their time only. -/
theorem scanProject_looksLike [Host] {t u : Tree} (h : t.LooksLike u) (root : Path)
    (s s' : Schedule) (hs : s.Complete) (hs' : s'.Complete) (ignored : List String)
    (time time' : String) : scanProject u root ⟨s', ignored, time'⟩ =
      (scanProject t root ⟨s, ignored, time⟩).map (Catalog.datedAt time') := by
  have hlike : (Project.withIgnored t root ignored).tree.LooksLike u := h
  have hproject : Project.withIgnored u root ignored =
      (Project.withIgnored t root ignored).inTree u := rfl
  unfold scanProject
  simp only [hproject, AliasTable.ofProject_looksLike h, Project.detect_inTree hlike, h.fileAt?,
    h.hasDirectoryAt]
  cases Host.exhausted u.fileAt? u.hasDirectoryAt root.names with
  | true => rfl
  | false =>
    cases AliasTable.ofProject t root with
    | error => rfl
    | ok table =>
      cases (Project.withIgnored t root ignored).detect with
      | error => rfl
      | ok detected => exact scanDetected_inTree hlike table s s' hs hs' ignored time time' _ _

/-- Scans of trees that look alike differ by time only. -/
theorem scan_looksLike [Host] {t u : Tree} (h : t.LooksLike u) (path : Path) (s s' : Schedule)
    (hs : s.Complete) (hs' : s'.Complete) (ignored : List String) (time time' : String) :
    scan u path ⟨s', ignored, time'⟩ =
      (scan t path ⟨s, ignored, time⟩).map (Catalog.datedAt time') := by
  have hproject (root : Path) := scanProject_looksLike h root s s' hs hs' ignored time time'
  unfold scan
  rw [h.checkDirectory]
  generalize path.resolve = root
  cases path.hasNull with
  | true => rfl
  | false =>
    cases path.hasSurrogate with
    | true => rfl
    | false =>
      cases u.checkDirectory root with
      | error => rfl
      | ok found =>
        cases found with
        | false => rfl
        | true => exact hproject root

/-- A catalog depends on the files and directories of a tree only. Two listings of one tree, two
schedules and two numbers of workers give the same catalog but for its time; a fact table gains the
facts of the files asked for, and only those. -/
theorem scan_repeatable [Host] (t u : Tree) (ht : t.Distinct) (hu : u.Distinct) (hsame : t.Same u)
    (s s' : Schedule) (hs : s.Complete) (hs' : s'.Complete) :
    (∀ path ignored time time', scan u path ⟨s', ignored, time'⟩ =
      (scan t path ⟨s, ignored, time⟩).map (Catalog.datedAt time')) ∧
    (∀ place (met : List (List String)), met.Perm (t.metBelow place) →
      met.mergeSort namesLE = u.namesBelow place) ∧
    (∀ table files, FactTable.load u s' table files = FactTable.load t s table files ∧
      ((table.map Prod.fst).Nodup → ((FactTable.load t s table files).map Prod.fst).Nodup) ∧
      ∀ file, (FactTable.load t s table files).fact? file = (table.fact? file).or
        (if file ∈ files then (t.readText? file).map Source.Fact.ofContent else none)) ∧
    ∀ batches : List (Schedule × List Path), (∀ batch ∈ batches, batch.1.Complete) →
      ∀ file, (FactTable.ofBatches t batches).fact? file =
        if ∃ batch ∈ batches, file ∈ batch.2 then (t.readText? file).map Source.Fact.ofContent
        else none := by
  have h : t.LooksLike u := hsame.looksLike ht hu
  refine ⟨?_, ?_, ?_, FactTable.fact?_ofBatches t⟩
  · intro path ignored time time'
    exact scan_looksLike h path s s' hs hs' ignored time time'
  · intro place met hmet
    rw [← h.namesBelow]
    exact Tree.mergeSort_of_metBelow t place met hmet
  · intro table files
    rw [FactTable.load_looksLike h s s' hs hs']
    exact ⟨rfl, FactTable.nodup_load t s hs table files, FactTable.fact?_load t s hs table files⟩

/-- A project with a component, a utility and an empty routing directory. -/
def shopTree : Tree where
  files :=
    [(["shop", "components", "Cart.tsx"], "export const Cart = () => <p/>".toUTF8.toList),
     (["shop", "lib", "total.ts"], "export const total = 0".toUTF8.toList)]
  directories := [["shop", "app"]]

/-- The same project, listed from its end. -/
def shopTreeReversed : Tree :=
  ⟨shopTree.files.reverse, shopTree.directories⟩

/-- The job that was handed out last finishes first. -/
def lastFirst : Schedule :=
  ⟨4, fun _ n => (List.range n).reverse⟩

attribute [local instance] Host.usual

/-- Listed from its end and read from its last file, the shop has the same catalog, and its table
the facts of the one file asked for that exists. -/
theorem scan_repeatable_shopTree :
    shopTree.Distinct ∧ shopTreeReversed.Distinct ∧ shopTree.Same shopTreeReversed ∧
    (Schedule.inOrder 1).Complete ∧ lastFirst.Complete ∧
    scan shopTreeReversed (.ofString "/shop") ⟨lastFirst, [], "noon"⟩ =
      (scan shopTree (.ofString "/shop") ⟨.inOrder 1, [], "dawn"⟩).map (Catalog.datedAt "noon") ∧
    [["lib", "total.ts"], ["components", "Cart.tsx"]].mergeSort namesLE =
      shopTreeReversed.namesBelow ["shop"] ∧ (FactTable.load shopTreeReversed lastFirst []
        [.ofString "/shop/lib/total.ts", .ofString "/shop/lib/none.ts"]).fact?
          (.ofString "/shop/lib/total.ts") = some (.ofContent "export const total = 0".toList) ∧
    (FactTable.load shopTreeReversed lastFirst []
        [.ofString "/shop/lib/total.ts", .ofString "/shop/lib/none.ts"]).fact?
          (.ofString "/shop/components/Cart.tsx") = none := by
  have hdistinct : shopTree.Distinct := by
    rw [Tree.Distinct]
    decide
  obtain ⟨hreversed, hsame⟩ : shopTreeReversed.Distinct ∧ shopTree.Same shopTreeReversed :=
    Tree.same_of_perm hdistinct (List.reverse_perm _).symm (List.Perm.refl _)
  have hordered : (Schedule.inOrder 1).Complete := fun n => List.Perm.refl _
  have hlastFirst : lastFirst.Complete := fun n => List.reverse_perm _
  obtain ⟨hscan, hlisting, hload, -⟩ := scan_repeatable shopTree shopTreeReversed hdistinct
    hreversed hsame (.inOrder 1) lastFirst hordered hlastFirst
  refine ⟨hdistinct, hreversed, hsame, hordered, hlastFirst, hscan _ _ _ _, ?_, ?_, ?_⟩
  · exact hlisting ["shop"] _ (by decide)
  · have htext : shopTree.readText? (.ofString "/shop/lib/total.ts") =
        some "export const total = 0".toList := by decide +kernel
    rw [(hload _ _).1, (hload _ _).2.2, if_pos List.mem_cons_self, htext]
    rfl
  · rw [(hload _ _).1, (hload _ _).2.2, if_neg (by decide +kernel)]
    rfl

end SiteAtlas
