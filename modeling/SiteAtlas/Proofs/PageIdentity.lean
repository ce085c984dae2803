import SiteAtlas.Proofs.FileRoutes
import SiteAtlas.Proofs.Listing

/-!
# Identifiers of page files

The identifier of a page is its route and its path with an at sign between, and both may hold at
signs and slashes. It can still be read in one way only. If a second reading cut it further to the
right, one path would end in the other. Then either the other file lies below the first one's
directory, and its route is too long, or a routing directory ends where another one begins, which
their names rule out.
-/

namespace SiteAtlas

open List

/-- Two joined rows of names have a slash between them. -/
theorem Text.toList_joinStrings_append (a b : List String) (ha : a ≠ []) (hb : b ≠ []) :
    (Text.joinStrings "/" (a ++ b)).toList =
      (Text.joinStrings "/" a).toList ++ '/' :: (Text.joinStrings "/" b).toList := by
  simp only [Text.joinStrings, String.toList_intercalate, map_append]
  induction a with
  | nil => exact absurd rfl ha
  | cons name rest ih =>
    rw [map_cons, cons_append, intercalate_cons_of_ne_nil (by simp [hb])]
    by_cases hrest : rest = []
    · simp [hrest]
    · rw [ih hrest, intercalate_cons_of_ne_nil (by simpa using hrest)]
      simp

/-- An absolute path begins with a slash. -/
theorem Path.begins_with_slash (file : Path) (h : file.isAbsolute = true) :
    ∃ rest, file.toString.toList = '/' :: rest := by
  obtain ⟨root, names⟩ := file
  cases root with
  | relative => cases h
  | slash | doubleSlash => simp [Path.toString, PathRoot.text]

/-- The text that all paths below a root begin with. -/
def Path.beginning (root : Path) : List Char :=
  root.root.text.toList ++
    if root.names = [] then [] else (Text.joinStrings "/" root.names).toList ++ ['/']

/-- A path below a root is the root's text and the names below. -/
theorem Path.toList_toString_below (root : Path) (names : List String) (h : names ≠ []) :
    (Path.mk root.root (root.names ++ names)).toString.toList =
      root.beginning ++ (Text.joinStrings "/" names).toList := by
  have htext : (Path.mk root.root (root.names ++ names)).toString =
      root.root.text ++ Text.joinStrings "/" (root.names ++ names) := by
    simp [Path.toString, h]
  rw [htext, String.toList_append, Path.beginning]
  by_cases hroot : root.names = []
  · simp [hroot]
  · rw [if_neg hroot, Text.toList_joinStrings_append _ _ hroot h]
    simp

/-- Names that end in a source file make the text of one. -/
theorem Route.isSource_joinStrings (names : List String) (hne : names ≠ [])
    (h : suffixOf (names.getLast?.getD "") ∈ Tree.sourceSuffixes) :
    Route.IsSource (Text.joinStrings "/" names).toList := by
  obtain ⟨before, last, rfl⟩ := (eq_nil_or_concat' names).resolve_left hne
  have hlast : last.toList = (splitSuffix last.toList).1 ++ (suffixOf last).toList := by
    rw [suffixOf, String.toList_ofList, splitSuffix_append]
  have hends : ∃ text, (Text.joinStrings "/" (before ++ [last])).toList = text ++ last.toList := by
    by_cases hbefore : before = []
    · exact ⟨[], by simp [hbefore, Text.joinStrings]⟩
    · rw [Text.toList_joinStrings_append _ _ hbefore (by simp)]
      exact ⟨(Text.joinStrings "/" before).toList ++ ['/'], by simp [Text.joinStrings]⟩
  obtain ⟨text, htext⟩ := hends
  refine ⟨text ++ (splitSuffix last.toList).1, suffixOf last, by simpa using h, ?_⟩
  rw [htext, append_assoc, ← hlast]

/-- Texts with at signs that are cut in two ways overlap. -/
theorem Text.exists_overlap (route path other otherPath : List Char)
    (h : route ++ '@' :: path = other ++ '@' :: otherPath) (hlt : route.length < other.length) :
    ∃ between, path = between ++ '@' :: otherPath ∧ other = route ++ '@' :: between := by
  rcases append_eq_append_iff.mp h with ⟨rest, hother, hpath⟩ | ⟨rest, hroute, -⟩
  · cases rest with
    | nil => simp [hother] at hlt
    | cons sign between =>
      obtain ⟨rfl, rfl⟩ := List.cons.inj hpath
      exact ⟨between, rfl, hother⟩
  · rw [hroute, length_append] at hlt
    omega

/-- Texts with no at sign before a slash, and absolute paths. -/
theorem Text.eq_of_append_sign_eq (name path other otherPath : List Char)
    (hname : ¬ ['@', '/'] <:+: name) (hother : ¬ ['@', '/'] <:+: other)
    (hpath : ∃ rest, path = '/' :: rest) (hotherPath : ∃ rest, otherPath = '/' :: rest)
    (h : name ++ '@' :: path = other ++ '@' :: otherPath) : name = other ∧ path = otherPath := by
  -- The longer text would hold an at sign and the beginning of the other path.
  have hshort (a b pathA pathB : List Char) (hb : ¬ ['@', '/'] <:+: b)
      (hpathA : ∃ rest, pathA = '/' :: rest) (heq : a ++ '@' :: pathA = b ++ '@' :: pathB) :
      b.length ≤ a.length := by
    by_contra hlt
    obtain ⟨between, hbetween, hlong⟩ := Text.exists_overlap a pathA b pathB heq
      (Nat.lt_of_not_le hlt)
    obtain ⟨rest, rfl⟩ := hpathA
    cases between with
    | nil => simp at hbetween
    | cons slash more =>
      obtain ⟨rfl, -⟩ := List.cons.inj hbetween
      exact hb ⟨a, more, by simp [hlong]⟩
  have hlength := Nat.le_antisymm (hshort _ _ _ _ hname hotherPath h.symm)
    (hshort _ _ _ _ hother hpath h)
  obtain ⟨hsame, hrest⟩ := append_inj h hlength
  exact ⟨hsame, (List.cons.inj hrest).2⟩

/-- The name of a routing directory, in the root or in `src`. -/
structure RouteArea (area : String) : Prop where
  plain : Path.ofString area = ⟨.relative, [area]⟩
  source : Path.ofString ("src/" ++ area) = ⟨.relative, ["src", area]⟩
  /-- The name begins with none of the characters of `src/`. -/
  begins : ∃ c rest, area.toList = c :: rest ∧ c ∉ "src/".toList

namespace RouteArea

/-- The directory of special files. -/
theorem app : RouteArea "app" :=
  ⟨by decide, by decide, 'a', _, rfl, by decide⟩

/-- The directory of page files. -/
theorem pages : RouteArea "pages" :=
  ⟨by decide, by decide, 'p', _, rfl, by decide⟩

variable {area : String} (harea : RouteArea area)
include harea

/-- No routing directory ends in another with an at sign before. -/
theorem not_shifted (beginning between below dir other : List Char)
    (hdir : dir = area.toList ∨ dir = "src/".toList ++ area.toList)
    (hother : other = area.toList ∨ other = "src/".toList ++ area.toList) :
    beginning ++ dir ≠ between ++ '@' :: (beginning ++ other ++ '/' :: below) := by
  intro h
  have hlength := congrArg List.length h
  simp only [length_append, length_cons] at hlength
  obtain ⟨c, rest, hbegins, hfree⟩ := harea.begins
  rcases hdir with rfl | rfl
  · rcases hother with rfl | rfl
    · omega
    · rw [length_append] at hlength
      omega
  · rcases hother with rfl | rfl
    · -- The inner directory would begin within `src/`, at one of its last three characters.
      have hends (text : List Char) (x : Char) (more : List Char)
          (hsrc : "src/".toList = text ++ x :: more)
          (hcount : more.length = below.length) : c ∈ "src/".toList := by
        have hcut : beginning ++ text ++ (x :: (more ++ area.toList)) =
            (between ++ '@' :: beginning) ++ (area.toList ++ '/' :: below) := by
          rw [hsrc] at h
          simpa using h
        have htail := (append_inj' hcut (by simp [hcount]; omega)).2
        rw [hbegins] at htail
        rw [← (List.cons.inj htail).1, hsrc]
        simp
      have hshort : below.length ≤ 2 := by
        have : "src/".toList.length = 4 := rfl
        rw [length_append] at hlength
        omega
      rcases below with _ | ⟨a, _ | ⟨b, _ | ⟨d, more⟩⟩⟩
      · exact hfree (hends "src".toList '/' [] rfl rfl)
      · exact hfree (hends "sr".toList 'c' ['/'] rfl rfl)
      · exact hfree (hends "s".toList 'r' ['c', '/'] rfl rfl)
      · simp at hshort
    · omega

/-- If one file's path ends in another's after an at sign, so does its path below the routing
directory, from a slash on. -/
theorem path_of_overlap (beginning between dir other path otherPath : List Char)
    (hdir : dir = area.toList ∨ dir = "src/".toList ++ area.toList)
    (hother : other = area.toList ∨ other = "src/".toList ++ area.toList)
    (h : beginning ++ dir ++ '/' :: path =
      between ++ '@' :: (beginning ++ other ++ '/' :: otherPath)) :
    path = otherPath ∨ ∃ outer, path = outer ++ '/' :: otherPath := by
  have hcut : (beginning ++ dir) ++ '/' :: path =
      (between ++ '@' :: (beginning ++ other)) ++ '/' :: otherPath := by simpa using h
  rcases append_eq_append_iff.mp hcut with ⟨rest, -, hrest⟩ | ⟨rest, hshift, hrest⟩
  · cases rest with
    | nil => exact Or.inl (List.cons.inj hrest).2
    | cons slash outer => exact Or.inr ⟨outer, (List.cons.inj hrest).2⟩
  · cases rest with
    | nil => exact Or.inl (List.cons.inj hrest).2.symm
    | cons slash below =>
      obtain ⟨rfl, -⟩ := List.cons.inj hrest
      refine absurd ?_ (harea.not_shifted beginning between below dir other hdir hother)
      simpa using hshift

end RouteArea

/-- A page that is a source file, with the route of its path. -/
def Page.IsRouted (beginning : List Char) (area : String) (router : Router) (page : Page) : Prop :=
  ∃ dir, (dir = area.toList ∨ dir = "src/".toList ++ area.toList) ∧
    ∃ path, Route.IsSource path ∧ page.filePath.toList = beginning ++ dir ++ '/' :: path ∧
      page.route.toList = Route.ofFilePath path router

/-- A page's identifier: route and path with an at sign between. -/
theorem Page.append_eq_of_id_eq (a b : Page) (h : a.id = b.id) :
    a.route.toList ++ '@' :: a.filePath.toList = b.route.toList ++ '@' :: b.filePath.toList := by
  have hid := congrArg String.toList h
  simpa [Page.id] using hid

namespace Page.IsRouted

variable {beginning : List Char} {area : String} {router : Router} {a b : Page}

/-- Page files of one identifier have routes of one length. -/
theorem length_route_le (ha : a.IsRouted beginning area router)
    (hb : b.IsRouted beginning area router) (harea : RouteArea area) (h : a.id = b.id) :
    b.route.toList.length ≤ a.route.toList.length := by
  obtain ⟨dir, hdir, path, -, hfile, hroute⟩ := ha
  obtain ⟨other, hother, otherPath, hsource, hotherFile, hotherRoute⟩ := hb
  by_contra hlt
  obtain ⟨between, hpath, -⟩ := Text.exists_overlap _ _ _ _ (a.append_eq_of_id_eq b h)
    (Nat.lt_of_not_le hlt)
  rw [hfile, hotherFile] at hpath
  rw [hroute, hotherRoute] at hlt
  rcases harea.path_of_overlap beginning between dir other path otherPath hdir hother
    hpath with rfl | ⟨outer, rfl⟩
  · exact hlt (Nat.le_refl _)
  · exact hlt (Route.length_ofFilePath_le router outer otherPath hsource)

/-- Page files with one identifier are one file. -/
theorem filePath_eq (ha : a.IsRouted beginning area router) (hb : b.IsRouted beginning area router)
    (harea : RouteArea area) (h : a.id = b.id) : a.filePath = b.filePath := by
  have hlength := Nat.le_antisymm (hb.length_route_le ha harea h.symm)
    (ha.length_route_le hb harea h)
  obtain ⟨-, hpath⟩ := append_inj (a.append_eq_of_id_eq b h) hlength
  exact String.toList_inj.mp (List.cons.inj hpath).2

end Page.IsRouted

/-- Values that keep a key of their origins have different keys. -/
theorem nodup_map_filterMap {α β γ : Type} (items : List α) (f : α → Option β) (key : β → γ)
    (text : α → γ) (htext : (items.map text).Nodup)
    (h : ∀ a ∈ items, ∀ b, f a = some b → key b = text a) :
    ((items.filterMap f).map key).Nodup := by
  refine htext.sublist ?_
  induction items with
  | nil => exact List.Sublist.refl []
  | cons a rest ih =>
    have hrest := ih (nodup_cons.mp htext).2 fun b hb => h b (mem_cons_of_mem a hb)
    cases ha : f a with
    | none =>
      rw [filterMap_cons_none ha]
      exact hrest.cons (text a)
    | some b =>
      rw [filterMap_cons_some ha, map_cons, map_cons, h a mem_cons_self b ha]
      exact hrest.cons_cons (text a)

namespace Tree

variable (t : Tree) (h : t.Distinct)
include h

/-- Names below a place differ. -/
theorem nodup_namesBelow (place : Place) : (t.namesBelow place).Nodup := by
  rw [namesBelow, (mergeSort_perm _ _).nodup_iff]
  refine List.Nodup.map_on ?_ (List.Nodup.filter _ h)
  have hwhole (names : Place) (hnames : names ∈ (t.files.map (·.1)).filter (isBelow · place)) :
      names = place ++ names.drop place.length := by
    have hbelow := of_mem_filter hnames
    rw [isBelow, Bool.and_eq_true, List.isPrefixOf_iff_prefix] at hbelow
    exact prefix_iff_eq_append.mp hbelow.1 |>.symm
  intro names hnames others hothers heq
  rw [hwhole names hnames, hwhole others hothers, heq]

/-- Listed files differ. -/
theorem nodup_sourceFiles (dir : Path) (rule : ListingRule) : (t.sourceFiles dir rule).Nodup := by
  unfold sourceFiles
  split
  · exact nodup_nil
  · split
    · refine List.Nodup.map ?_ ((t.nodup_namesBelow h _).filter _)
      intro names others heq
      simpa using heq
    · exact nodup_nil

omit h

/-- A listed file's last name below has a source suffix. -/
theorem suffix_of_mem_sourceFiles (dir : Path) (rule : ListingRule) (file : Path)
    (hfile : file ∈ t.sourceFiles dir rule) :
    ∃ names, names ≠ [] ∧ suffixOf (names.getLast?.getD "") ∈ sourceSuffixes ∧
      file = { dir with names := dir.names ++ names } := by
  obtain ⟨-, names, -, -, htakes, rfl⟩ := mem_sourceFiles_iff_place.mp hfile
  refine ⟨names, rule.ne_nil_of_takes names htakes, ?_, rfl⟩
  simp only [ListingRule.takes, Bool.and_eq_true, contains_iff_mem] at htakes
  exact htakes.1.1.2

end Tree

/-- The names of a path below a directory are found again. -/
theorem Path.below?_append (dir : Path) (names : List String) :
    Path.below? { dir with names := dir.names ++ names } dir = some names := by
  simp [Path.below?]

/-- Pages that are different source files below routing directories. -/
structure RoutedPages (beginning : List Char) (area : String) (router : Router)
    (candidates : List PageCandidate) : Prop where
  nodup : (candidates.map (·.page.filePath)).Nodup
  routed : ∀ candidate ∈ candidates, candidate.page.IsRouted beginning area router

namespace RouteArea

variable {area : String} (harea : RouteArea area) (p : Project)
include harea

/-- The routing directory in the root. -/
theorem root_div (root : Path) : root / area = ⟨root.root, root.names ++ [area]⟩ := by
  rw [root.div_eq area (by rw [harea.plain]; rfl), harea.plain]

/-- The routing directory in `src`. -/
theorem root_div_source (root : Path) :
    root / ("src/" ++ area) = ⟨root.root, root.names ++ ["src", area]⟩ := by
  rw [root.div_eq _ (by rw [harea.source]; rfl), harea.source]

/-- Where the two routing directories of a project lie. -/
theorem mem_existing (dir : Path) (h : dir ∈ p.existing [area, "src/" ++ area]) :
    ∃ names, (names = [area] ∨ names = ["src", area]) ∧
      dir = ⟨p.root.root, p.root.names ++ names⟩ := by
  have hmem := mem_of_mem_filter h
  simp only [map_cons, map_nil, mem_cons, not_mem_nil, or_false] at hmem
  rcases hmem with rfl | rfl
  · exact ⟨[area], Or.inl rfl, harea.root_div p.root⟩
  · exact ⟨["src", area], Or.inr rfl, harea.root_div_source p.root⟩

/-- A file with its path and route is a page of its directory. -/
theorem isRouted (router : Router) (dir file : Path)
    (hdir : dir ∈ p.existing [area, "src/" ++ area])
    (hfile : file ∈ p.routeFilesBelow dir) (page : Page) (hpath : page.filePath = file.toString)
    (hroute : page.route = Route.ofNames ((file.below? dir).getD []) router) :
    page.IsRouted p.root.beginning area router := by
  obtain ⟨names, hne, hsuffix, rfl⟩ := p.tree.suffix_of_mem_sourceFiles dir _ file hfile
  obtain ⟨inner, hinner, rfl⟩ := harea.mem_existing p dir hdir
  have hinnerNe : inner ≠ [] := by rcases hinner with rfl | rfl <;> simp
  refine ⟨(Text.joinStrings "/" inner).toList, ?_, (Text.joinStrings "/" names).toList,
    Route.isSource_joinStrings names hne hsuffix, ?_, ?_⟩
  · rcases hinner with rfl | rfl
    · exact Or.inl (by simp [Text.joinStrings])
    · exact Or.inr (by simp [Text.joinStrings])
  · rw [hpath, append_assoc p.root.names, Path.toList_toString_below p.root _ (by simp [hne]),
      Text.toList_joinStrings_append _ _ hinnerNe hne, append_assoc]
  · rw [hroute, Path.below?_append, Option.getD_some, Route.ofNames, String.toList_ofList]

/-- A file lies below at most one routing directory. -/
theorem disjoint_files (hplain : p.tree.PlainNames) :
    (p.existing [area, "src/" ++ area]).Pairwise fun a b =>
      ∀ file ∈ p.routeFilesBelow a, ∀ other ∈ p.routeFilesBelow b, file ≠ other := by
  refine List.Pairwise.filter _ ?_
  simp only [map_cons, map_nil, pairwise_cons, mem_singleton, forall_eq,
    not_mem_nil, false_implies, implies_true, List.Pairwise.nil, and_true]
  intro file hfile other hother heq
  rw [harea.root_div] at hfile
  rw [harea.root_div_source] at hother
  obtain ⟨names, -, -, rfl⟩ := p.tree.mem_sourceFiles hplain _ _ file hfile
  obtain ⟨others, -, -, rfl⟩ := p.tree.mem_sourceFiles hplain _ _ other hother
  obtain ⟨c, rest, hbegins, hfree⟩ := harea.begins
  have hsame : area = "src" := by
    have hnames := (Path.mk.inj heq).2
    simp only [append_assoc] at hnames
    exact (List.cons.inj (append_cancel_left hnames)).1
  rw [hsame] at hbegins
  obtain ⟨rfl, -⟩ := List.cons.inj hbegins
  exact hfree (by decide)

/-- A file below a routing directory lies below the root of the project. -/
theorem hasBelow (hplain : p.tree.PlainNames) (dir : Path)
    (hdir : dir ∈ p.existing [area, "src/" ++ area]) (file : Path)
    (hfile : file ∈ p.routeFilesBelow dir) : p.HasBelow file := by
  have hmem := mem_of_mem_filter hdir
  simp only [map_cons, map_nil, mem_cons, not_mem_nil, or_false] at hmem
  rcases hmem with rfl | rfl
  · exact Candidates.hasBelow_of_mem_sourceFiles p hplain area (by rw [harea.plain]; rfl) _ file
      hfile
  · exact Candidates.hasBelow_of_mem_sourceFiles p hplain ("src/" ++ area)
      (by rw [harea.source]; rfl) _ file hfile

/-- Values of different files there have different paths. -/
theorem nodup_paths (hplain : p.tree.PlainNames) {α : Type} (files : Path → List Path)
    (hnodup : ∀ dir, (files dir).Nodup) (hfiles : ∀ dir ∈ p.existing [area, "src/" ++ area],
      files dir ⊆ p.routeFilesBelow dir) (value? : Path → Path → Option α) (path : α → String)
    (hpath : ∀ dir file value, value? dir file = some value → path value = file.toString) :
    (((p.existing [area, "src/" ++ area]).flatMap fun dir =>
      (files dir).filterMap (value? dir)).map path).Nodup := by
  rw [map_flatMap, nodup_flatMap]
  constructor
  · intro dir hdir
    refine nodup_map_filterMap _ _ _ Path.toString ?_ fun file _ => hpath dir file
    refine List.Nodup.map_on ?_ (hnodup dir)
    intro file hfile other hother
    exact Project.HasBelow.eq_of_toString p file other
      (harea.hasBelow p hplain dir hdir file (hfiles dir hdir hfile))
      (harea.hasBelow p hplain dir hdir other (hfiles dir hdir hother))
  · refine (harea.disjoint_files p hplain).imp_of_mem ?_
    intro a b ha hb hdisjoint text htextA htextB
    simp only [mem_map, mem_filterMap] at htextA htextB
    obtain ⟨value, ⟨file, hfile, hvalue⟩, rfl⟩ := htextA
    obtain ⟨second, ⟨other, hother, hsecond⟩, hsame⟩ := htextB
    rw [hpath a file value hvalue, hpath b other second hsecond] at hsame
    have hfile := hfiles a ha hfile
    have hother := hfiles b hb hother
    exact hdisjoint file hfile other hother (Project.HasBelow.eq_of_toString p file other
      (harea.hasBelow p hplain a ha file hfile) (harea.hasBelow p hplain b hb other hother)
      hsame.symm)

/-- Pages of the files there are different files. -/
theorem routedPages (hplain : p.tree.PlainNames) (hdistinct : p.tree.Distinct) (router : Router)
    (page? : Path → Path → Option PageCandidate)
    (hpage : ∀ dir file candidate, page? dir file = some candidate →
      candidate.page.filePath = file.toString ∧
        candidate.page.route = Route.ofNames ((file.below? dir).getD []) router) :
    RoutedPages p.root.beginning area router ((p.existing [area, "src/" ++ area]).flatMap fun dir =>
        (p.routeFilesBelow dir).filterMap (page? dir)) where
  nodup := harea.nodup_paths p hplain _ (p.tree.nodup_sourceFiles hdistinct · _)
    (fun _ _ _ => id) page? _ fun dir file candidate h => (hpage dir file candidate h).1
  routed candidate hcandidate := by
    simp only [mem_flatMap, mem_filterMap] at hcandidate
    obtain ⟨dir, hdir, file, hfile, hcandidate⟩ := hcandidate
    obtain ⟨hpath, hroute⟩ := hpage dir file candidate hcandidate
    exact harea.isRouted p router dir file hdir hfile _ hpath hroute

end RouteArea

namespace Project

variable (p : Project) (hplain : p.tree.PlainNames) (hdistinct : p.tree.Distinct)
include hplain hdistinct

/-- Special files are different source files below their routing directories. -/
theorem routedPages_appPages : RoutedPages p.root.beginning "app" .nextjsApp p.appPages := by
  refine RouteArea.app.routedPages p hplain hdistinct .nextjsApp
    (fun dir file => (specialPage? dir file).map fun page => { page }) ?_
  intro dir file candidate hcandidate
  obtain ⟨page, hpage, rfl⟩ := Option.map_eq_some_iff.mp hcandidate
  obtain ⟨role, -, rfl⟩ := Option.map_eq_some_iff.mp hpage
  exact ⟨rfl, rfl⟩

/-- Page files are different source files below their routing directories. -/
theorem routedPages_filePages : RoutedPages p.root.beginning "pages" .nextjsPages p.filePages := by
  refine RouteArea.pages.routedPages p hplain hdistinct .nextjsPages _ ?_
  intro dir file candidate hcandidate
  dsimp only at hcandidate
  split at hcandidate
  · obtain rfl := Option.some.inj hcandidate
    exact ⟨rfl, rfl⟩
  · cases hcandidate

/-- Where pages are files, they are different files below routing directories. -/
theorem exists_routedPages [Host] (router : Router)
    (hrouter : router = .nextjsApp ∨ router = .nextjsPages) :
    ∃ candidates area, p.pages router = .ok candidates ∧ RouteArea area ∧
      RoutedPages p.root.beginning area router candidates := by
  rcases hrouter with rfl | rfl
  · exact ⟨_, _, rfl, .app, p.routedPages_appPages hplain hdistinct⟩
  · exact ⟨_, _, rfl, .pages, p.routedPages_filePages hplain hdistinct⟩

end Project

end SiteAtlas
