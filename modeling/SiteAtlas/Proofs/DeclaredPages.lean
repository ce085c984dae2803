import SiteAtlas.Proofs.Checking
import SiteAtlas.Proofs.DeclaredRoutes
import SiteAtlas.Proofs.PageIdentity

/-!
# Declared pages that share an identifier

A declared route becomes a page at the file of its component, or else at the declaring file. A
source declares each route once, index routes of the root apart, but nothing compares sources. So
pages share an identifier if one route of two files, or two index routes of one, are led back to one
file; at signs before slashes apart there is no other way.
-/

namespace SiteAtlas

open List

namespace Route

/-- Declarations differ in route, or are different index routes. -/
def Declaration.Apart (a b : Declaration) : Prop :=
  a.route = b.route → a.route = "/" ∧ a.component ≠ b.component

/-- The declarations of a source are kept apart. -/
theorem pairwise_declarations (content : List Char) :
    (declarations content).Pairwise Declaration.Apart := by
  rw [← Found.map_noted]
  refine (Found.covers_noted content).repeated.map _ fun first second h hroute => ?_
  refine ⟨hroute.trans (Found.route_of_isIndex (h.2 hroute)), fun hcomponent => h.1 ?_⟩
  exact Declaration.ext hroute hcomponent

end Route

namespace Project

variable (p : Project)

/-- Conventional files for routes have shortest relative paths. -/
theorem ofString_routeFiles : ∀ name ∈ routeFiles, (Path.ofString name).isAbsolute = false ∧
    (Path.ofString name).names ≠ [] ∧ (Path.ofString name).toString = name := by
  decide +kernel

/-- Route files are well listed. -/
theorem wellListed_routeFiles : Candidates.WellListed p (routeFiles.map (p.root / ·)) where
  nodup := by
    refine List.Nodup.map_on ?_ (by simp [routeFiles])
    intro name hname other hother heq
    obtain ⟨hrelative, -, htext⟩ := ofString_routeFiles name hname
    obtain ⟨hotherRelative, -, hotherText⟩ := ofString_routeFiles other hother
    rw [p.root.div_eq name hrelative, p.root.div_eq other hotherRelative] at heq
    have hnames := append_cancel_left (Path.mk.inj heq).2
    have hroots : (Path.ofString name).root = (Path.ofString other).root := by
      simp only [Path.isAbsolute, bne_eq_false_iff_eq] at hrelative hotherRelative
      rw [hrelative, hotherRelative]
    rw [← htext, ← hotherText, Path.toString, Path.toString, hnames, hroots]
  hasBelow file hfile := by
    obtain ⟨name, hname, rfl⟩ := mem_map.mp hfile
    obtain ⟨hrelative, hne, -⟩ := ofString_routeFiles name hname
    exact ⟨_, hne, Path.slashFree_ofString name, p.root.div_eq name hrelative⟩

/-- Files that may declare routes differ, and lie below the root. -/
theorem wellListed_routeFileCandidates (hplain : p.tree.PlainNames) (hdistinct : p.tree.Distinct) :
    Candidates.WellListed p (p.routeFileCandidates.map (·.1)) := by
  have hfiles : p.routeFileCandidates.map (·.1) =
      (routeFiles.map (p.root / ·)).filter p.tree.isFile ++
        (p.filesBelow (p.root / "src")).filter fun file => isRouteStem file.stem &&
          !((routeFiles.map (p.root / ·)).filter p.tree.isFile).contains file := by
    simp [routeFileCandidates, Function.comp_def]
  have hconventional := p.wellListed_routeFiles.filter p.tree.isFile
  rw [hfiles]
  constructor
  · refine hconventional.nodup.append ((p.tree.nodup_sourceFiles hdistinct _ _).filter _) ?_
    intro file hfile hother
    simpa [hfile] using of_mem_filter hother
  · intro file hfile
    rcases mem_append.mp hfile with hfile | hfile
    · exact hconventional.hasBelow file hfile
    · exact Candidates.hasBelow_of_mem_sourceFiles p hplain "src" (by decide) _ file
        (mem_of_mem_filter hfile)

/-- The pages that one file declares. -/
def pagesDeclaredBy (candidate : Path × Bool) : List Page :=
  match p.tree.readText? candidate.1 with
  | some content =>
    if looksLikeRoutes content candidate.2 then declaredPages candidate.1 content else []
  | none => []

/-- A declared page has its file's path. -/
theorem filePath_of_mem_pagesDeclaredBy (candidate : Path × Bool) (page : Page)
    (h : page ∈ p.pagesDeclaredBy candidate) : page.filePath = candidate.1.toString := by
  unfold pagesDeclaredBy at h
  split at h
  · split at h
    · obtain ⟨d, -, rfl⟩ := mem_map.mp h
      rfl
    · cases h
  · cases h

/-- Declared pages differ in route, source or as index routes. -/
def ApartInSource (a b : Page) : Prop :=
  a.route = b.route → a.filePath = b.filePath → a.route = "/" ∧ a.componentName ≠ b.componentName

/-- All declared pages of a project are apart. -/
theorem pairwise_declaredRoutes (hplain : p.tree.PlainNames) (hdistinct : p.tree.Distinct) :
    p.declaredRoutes.Pairwise ApartInSource := by
  have hlisted := p.wellListed_routeFileCandidates hplain hdistinct
  change (p.routeFileCandidates.flatMap p.pagesDeclaredBy).Pairwise ApartInSource
  rw [pairwise_flatMap]
  constructor
  · intro candidate _
    unfold pagesDeclaredBy
    split
    · next content _ =>
      split
      · rw [declaredPages, pairwise_map]
        refine (Route.pairwise_declarations content).imp ?_
        intro a b hapart hroute _
        obtain ⟨hroot, hcomponent⟩ := hapart hroute
        exact ⟨hroot, fun heq => hcomponent (Option.some.inj heq)⟩
      · exact List.Pairwise.nil
    · exact List.Pairwise.nil
  · refine (pairwise_map.mp hlisted.nodup).imp_of_mem ?_
    intro first second hfirst hsecond hne a ha b hb _ hpath
    rw [p.filePath_of_mem_pagesDeclaredBy first a ha,
      p.filePath_of_mem_pagesDeclaredBy second b hb] at hpath
    exact absurd (HasBelow.eq_of_toString p _ _ (hlisted.hasBelow _ (mem_map_of_mem hfirst))
      (hlisted.hasBelow _ (mem_map_of_mem hsecond)) hpath) hne

/-- The path of a page: of its component's file, or its source. -/
def location [Host] (page : Page) : Except LookupError String :=
  (p.componentFile (page.componentName.getD "")).map fun found =>
    (found.map Path.toString).getD page.filePath

/-- A page that is led back keeps its route. -/
theorem location_of_locatePage [Host] (page : Page) (candidate : PageCandidate)
    (h : p.locatePage page = .ok candidate) :
    candidate.page.route = page.route ∧ p.location page = .ok candidate.page.filePath := by
  unfold locatePage at h
  unfold location
  cases hfound : p.componentFile (page.componentName.getD "") with
  | error e =>
    rw [hfound] at h
    cases h
  | ok found =>
    rw [hfound] at h
    cases found with
    | none =>
      obtain rfl := Except.ok.inj h
      exact ⟨rfl, rfl⟩
    | some file =>
      obtain rfl := Except.ok.inj h
      exact ⟨rfl, rfl⟩

/-- Conventional files of a component have relative paths. -/
theorem isAbsolute_conventionalFiles (component name : String)
    (h : name ∈ conventionalFiles component) : (Path.ofString name).isAbsolute = false := by
  have hhead : name.toList.head? = some 's' ∨ name.toList.head? = some 'c' := by
    simp only [conventionalFiles, mem_cons, not_mem_nil, or_false] at h
    rcases h with rfl | rfl | rfl | rfl | rfl | rfl | rfl | rfl | rfl | rfl | rfl <;>
      simp [String.toList_append]
  cases hchars : name.toList with
  | nil => simp [hchars] at hhead
  | cons c rest =>
    have hslash : (c == '/') = false := by
      rw [hchars] at hhead
      rcases hhead with hhead | hhead <;> obtain rfl := Option.some.inj hhead <;> rfl
    simp [Path.isAbsolute, Path.ofString, rootOf, hchars, hslash]

/-- The file of a component has the root of the project. -/
theorem root_of_componentFile [Host] (component : String) (file : Path)
    (h : p.componentFile component = .ok (some file)) : file.root = p.root.root := by
  unfold componentFile at h
  have hfound := ends_findM? p.tree.checkFile ((conventionalFiles component).map (p.root / ·))
  cases hsearch : ((conventionalFiles component).map (p.root / ·)).findM? p.tree.checkFile with
  | error e =>
    rw [hsearch] at h
    cases h
  | ok found =>
    rw [hsearch] at h hfound
    have hchoice := Except.ok.inj h
    rcases Option.or_eq_some_iff.mp hchoice with hconventional | ⟨-, hlisted⟩
    · obtain ⟨name, hname, rfl⟩ := mem_map.mp (hfound.of_ok.1 file hconventional).1
      rw [p.root.div_eq name (isAbsolute_conventionalFiles component name hname)]
    · obtain ⟨names, -, -, rfl⟩ := p.tree.suffix_of_mem_sourceFiles _ _ file
        (mem_of_find?_eq_some hlisted)
      rfl

/-- The path of a page begins with a slash if the root does. -/
theorem location_begins_with_slash [Host] (hplain : p.tree.PlainNames) (hdistinct : p.tree.Distinct)
    (hroot : p.root.isAbsolute = true) (page : Page) (hpage : page ∈ p.declaredRoutes)
    (text : String) (h : p.location page = .ok text) : ∃ rest, text.toList = '/' :: rest := by
  unfold location at h
  cases hfound : p.componentFile (page.componentName.getD "") with
  | error e =>
    rw [hfound] at h
    cases h
  | ok found =>
    rw [hfound] at h
    obtain rfl := Except.ok.inj h
    cases found with
    | some file =>
      refine file.begins_with_slash ?_
      rw [Path.isAbsolute, p.root_of_componentFile _ file hfound]
      exact hroot
    | none =>
      obtain ⟨candidate, hcandidate, hmem⟩ := mem_flatMap.mp hpage
      have hlisted := p.wellListed_routeFileCandidates hplain hdistinct
      obtain ⟨names, -, -, hfile⟩ := hlisted.hasBelow _ (mem_map_of_mem hcandidate)
      change ∃ rest, page.filePath.toList = '/' :: rest
      rw [p.filePath_of_mem_pagesDeclaredBy candidate page hmem, hfile]
      exact Path.begins_with_slash _ hroot

/-- Two declared pages at one path with one route: from different sources, or index routes of one
source with different components. -/
def Clash [Host] (a b : Page) : Prop :=
  a.route = b.route ∧ p.location a = p.location b ∧
    (a.filePath ≠ b.filePath ∨ a.route = "/" ∧ a.componentName ≠ b.componentName)

end Project

/-- A relation between neighbours passes to a related list. -/
theorem pairwise_of_forall₂ {α β : Type} {related : α → β → Prop} {before : α → α → Prop}
    {after : β → β → Prop} {items : List α} {others : List β}
    (h : List.Forall₂ related items others)
    (hnext : ∀ a b x y, related a x → related b y → before a b → after x y)
    (hitems : items.Pairwise before) : others.Pairwise after := by
  obtain ⟨hlength, hget⟩ := forall₂_iff_get.mp h
  rw [pairwise_iff_get] at hitems ⊢
  intro i j hij
  have hi : i.val < items.length := by rw [hlength]; exact i.isLt
  have hj : j.val < items.length := by rw [hlength]; exact j.isLt
  exact hnext _ _ _ _ (hget i hi i.isLt) (hget j hj j.isLt) (hitems ⟨i, hi⟩ ⟨j, hj⟩ hij)

/-- Routes without an at sign before a slash can be told. -/
theorem Page.eq_of_id_eq (a b : Page) (ha : Text.stringContains "@/" a.route = false)
    (hb : Text.stringContains "@/" b.route = false)
    (hapath : ∃ rest, a.filePath.toList = '/' :: rest)
    (hbpath : ∃ rest, b.filePath.toList = '/' :: rest) (h : a.id = b.id) :
    a.route = b.route ∧ a.filePath = b.filePath := by
  have hfree (page : Page) (hpage : Text.stringContains "@/" page.route = false) :
      ¬ ['@', '/'] <:+: page.route.toList := by
    intro hheld
    have hholds : Text.stringContains "@/" page.route = true := (Text.contains_iff _).mpr hheld
    rw [hpage] at hholds
    cases hholds
  obtain ⟨hroute, hpath⟩ := Text.eq_of_append_sign_eq _ _ _ _ (hfree a ha) (hfree b hb) hapath
    hbpath (a.append_eq_of_id_eq b h)
  exact ⟨String.toList_inj.mp hroute, String.toList_inj.mp hpath⟩

/-- The pages of a project that declares its routes have different identifiers only if no two
declarations clash, and then they do unless a route holds an at sign before a slash. -/
theorem declared_pages_distinct_ids [Host] (p : Project) (hplain : p.tree.PlainNames)
    (hdistinct : p.tree.Distinct) (hroot : p.root.isAbsolute = true)
    (candidates : List PageCandidate) (h : p.pages .reactRouter = .ok candidates) :
    ((candidates.map (·.page.id)).Nodup → p.declaredRoutes.Pairwise fun a b => ¬ p.Clash a b) ∧
    ((∀ page ∈ p.declaredRoutes, Text.stringContains "@/" page.route = false) →
      (p.declaredRoutes.Pairwise fun a b => ¬ p.Clash a b) →
        (candidates.map (·.page.id)).Nodup) := by
  have hlocated : List.Forall₂ (fun page candidate => page ∈ p.declaredRoutes ∧
      candidate.page.route = page.route ∧ p.location page = .ok candidate.page.filePath)
      p.declaredRoutes candidates := by
    have hends := ends_mapM p.locatePage p.declaredRoutes
    rw [show p.declaredRoutes.mapM p.locatePage = .ok candidates from h] at hends
    exact (List.forall₂_and_left _ _).mpr
      ⟨fun page hpage => hpage, hends.of_ok.imp p.location_of_locatePage⟩
  constructor
  · intro hnodup
    refine pairwise_of_forall₂ hlocated.flip ?_ (List.pairwise_map.mp hnodup)
    rintro a b page other ⟨-, hroute, hpath⟩ ⟨-, hotherRoute, hotherPath⟩ hne ⟨hsame, hplace, -⟩
    rw [hpath, hotherPath] at hplace
    refine hne ?_
    rw [Page.id, Page.id, hroute, hotherRoute, hsame, Except.ok.inj hplace]
  · intro hroutes hclash
    refine List.pairwise_map.mpr (pairwise_of_forall₂ hlocated ?_
      (hclash.and (p.pairwise_declaredRoutes hplain hdistinct)))
    rintro page other a b ⟨hpage, hroute, hpath⟩ ⟨hother, hotherRoute, hotherPath⟩
      ⟨hnot, hapart⟩ hid
    have hbegins (page : Page) (hpage : page ∈ p.declaredRoutes) (candidate : PageCandidate)
        (hpath : p.location page = .ok candidate.page.filePath) :=
      p.location_begins_with_slash hplain hdistinct hroot page hpage _ hpath
    obtain ⟨hsameRoute, hsamePath⟩ := Page.eq_of_id_eq a.page b.page
      (by rw [hroute]; exact hroutes page hpage) (by rw [hotherRoute]; exact hroutes other hother)
      (hbegins page hpage a hpath) (hbegins other hother b hotherPath) hid
    rw [hroute, hotherRoute] at hsameRoute
    refine hnot ⟨hsameRoute, by rw [hpath, hotherPath, hsamePath], ?_⟩
    by_cases hsource : page.filePath = other.filePath
    · exact Or.inr (hapart hsameRoute hsource)
    · exact Or.inl hsource

/-- A project with one route in two files, and one component. -/
def twiceProject : Project where
  tree :=
    { files := [(["shop", "src", "App.tsx"],
          "<Route path=\"/a\" element=\x7b<A />\x7d />".toUTF8.toList),
        (["shop", "src", "components", "A.tsx"], []),
        (["shop", "src", "routes.tsx"],
          "<Route path=\"/a\" element=\x7b<A />\x7d />".toUTF8.toList)]
      directories := [] }
  root := ⟨.slash, ["shop"]⟩
  ignored := []

/-- The page that the route is led back to. -/
def twicePage : Page :=
  { route := "/a", filePath := "/shop/src/components/A.tsx", fileName := "A.tsx"
    componentName := some "A" }

/-- The files of the project, in order. -/
theorem filesBelow_twiceProject : twiceProject.filesBelow (twiceProject.root / "src") =
    [⟨.slash, ["shop", "src", "App.tsx"]⟩, ⟨.slash, ["shop", "src", "components", "A.tsx"]⟩,
      ⟨.slash, ["shop", "src", "routes.tsx"]⟩] := by
  have hplace : twiceProject.tree.place? (twiceProject.root / "src") = some ["shop", "src"] := by
    decide +kernel
  have hnames : twiceProject.tree.namesBelow ["shop", "src"] =
      [["App.tsx"], ["components", "A.tsx"], ["routes.tsx"]] :=
    mergeSort_of_pairwise (by decide +kernel)
  rw [Project.filesBelow, Tree.sourceFiles, hplace]
  dsimp only
  rw [hnames]
  decide +kernel

/-- The routes are found in both files. -/
theorem declaredRoutes_twiceProject : twiceProject.declaredRoutes =
    [Project.declaredPage ⟨.slash, ["shop", "src", "App.tsx"]⟩ ⟨"/a", "A"⟩,
      Project.declaredPage ⟨.slash, ["shop", "src", "routes.tsx"]⟩ ⟨"/a", "A"⟩] := by
  have hfiles : twiceProject.routeFileCandidates = [(⟨.slash, ["shop", "src", "App.tsx"]⟩, true),
        (⟨.slash, ["shop", "src", "routes.tsx"]⟩, true)] := by
    rw [Project.routeFileCandidates, filesBelow_twiceProject]
    decide +kernel
  rw [Project.declaredRoutes, hfiles]
  decide +kernel

section

attribute [local instance] Host.usual

/-- The component's file is found. -/
theorem componentFile_twiceProject : twiceProject.componentFile "A" =
    .ok (some ⟨.slash, ["shop", "src", "components", "A.tsx"]⟩) := by
  decide +kernel

/-- Both pages are led to one file. -/
theorem pages_twiceProject :
    twiceProject.pages .reactRouter = .ok [{ page := twicePage }, { page := twicePage }] := by
  have hlocate (file : Path) : twiceProject.locatePage (Project.declaredPage file ⟨"/a", "A"⟩) =
      .ok { page := twicePage } := by
    rw [Project.locatePage]
    change (twiceProject.componentFile "A" >>= _) = _
    rw [componentFile_twiceProject]
    rfl
  change twiceProject.declaredRoutes.mapM twiceProject.locatePage = _
  rw [declaredRoutes_twiceProject, mapM_cons, mapM_cons, hlocate, hlocate]
  rfl

/-- The two declarations of the project clash. -/
theorem declared_pages_distinct_ids_twiceProject :
    twiceProject.tree.PlainNames ∧ twiceProject.tree.Distinct ∧
      twiceProject.root.isAbsolute = true ∧
      (∀ page ∈ twiceProject.declaredRoutes, Text.stringContains "@/" page.route = false) ∧
      ¬ twiceProject.declaredRoutes.Pairwise fun a b => ¬ twiceProject.Clash a b := by
  have hplain : twiceProject.tree.PlainNames := by
    simp only [Tree.PlainNames, SlashFree]
    decide +kernel
  have hdistinct : twiceProject.tree.Distinct := by
    unfold Tree.Distinct
    decide +kernel
  have hroutes : ∀ page ∈ twiceProject.declaredRoutes,
      Text.stringContains "@/" page.route = false := by
    rw [declaredRoutes_twiceProject]
    decide +kernel
  refine ⟨hplain, hdistinct, rfl, hroutes, fun hclash => ?_⟩
  have hnodup := (declared_pages_distinct_ids twiceProject hplain hdistinct rfl _
    pages_twiceProject).2 hroutes hclash
  simp at hnodup

/-- The route declared twice becomes two pages of one identifier. -/
theorem declared_pages_share_id_twiceProject :
    ∃ candidates, twiceProject.pages .reactRouter = .ok candidates ∧ candidates.map (·.page.id) =
        ["page:/a@/shop/src/components/A.tsx", "page:/a@/shop/src/components/A.tsx"] :=
  ⟨_, pages_twiceProject, by decide +kernel⟩

end

end SiteAtlas
