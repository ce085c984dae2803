import SiteAtlas.Proofs.Classification
import SiteAtlas.Proofs.DataPlacement
import SiteAtlas.Proofs.DeclaredPages
import SiteAtlas.Proofs.Obstacles
import SiteAtlas.Proofs.Scanning

/-!
# Files that cannot be read

A file whose bytes are no text has no facts, so a catalog has the same entities as if it were not
there. Only the search for the file of a component notices it: without the file it goes on, and may
come to a path that cannot be looked up.
-/

namespace SiteAtlas

open List

variable {file : Path} {names : List String}

namespace Tree

/-- A tree without the file at a place; its directory is kept. -/
def without (t : Tree) (place : Place) : Tree where
  files := t.files.filter (·.1 != place)
  directories := place.dropLast :: t.directories

/-- Whether a path leads to a file that can be read as text. -/
def isReadable (t : Tree) (file : Path) : Bool :=
  (t.readText? file).isSome

/-- Trees with the same directories and source texts. -/
structure ReadsLike (t u : Tree) : Prop extends SameDirectories t u where
  readText? : t.readText? = u.readText?
  sourceFiles : ∀ dir rule, (t.sourceFiles dir rule).filter t.isReadable =
    (u.sourceFiles dir rule).filter t.isReadable

/-- A directory is above a file if it leads to it. -/
theorem isBelow_iff (place base : Place) :
    base = [] ∨ isBelow place base = true ↔ base = [] ∨ base <+: place.dropLast := by
  rcases eq_nil_or_concat' place with rfl | ⟨front, last, rfl⟩
  · simp [isBelow]
  · rw [dropLast_concat, isBelow, Bool.and_eq_true, List.isPrefixOf_iff_prefix,
      prefix_concat_iff, decide_eq_true_iff]
    refine or_congr_right ⟨fun h => h.1.resolve_left fun heq => ?_, fun h => ⟨.inr h, ?_⟩⟩
    · rw [heq] at h
      exact Nat.lt_irrefl _ h.2
    · have := h.length_le
      rw [length_append]
      exact Nat.lt_succ_of_le this

/-- Without the file there is none at its place, and the others are as before. -/
theorem fileAt?_without (t : Tree) (place other : Place) :
    (t.without place).fileAt? other = if other = place then none else t.fileAt? other := by
  split
  · next hother =>
    rw [fileAt?, lookup_eq_none_iff]
    simpa [without, hother] using fun a b _ h => Ne.symm h
  · next hother =>
    unfold fileAt? without
    dsimp only
    induction t.files with
    | nil => rfl
    | cons entry rest ih =>
      by_cases hplace : entry.1 = place
      · have hentry : (other == entry.1) = false := beq_false_of_ne (hplace ▸ hother)
        rw [filter_cons_of_neg (by simp [hplace]), ih, lookup_cons, hentry]
      · rw [filter_cons_of_pos (by simp [hplace]), lookup_cons, lookup_cons, ih]

/-- Without the file the others are listed as before. -/
theorem namesBelow_without (t : Tree) (place base : Place) : (t.without place).namesBelow base =
    (t.namesBelow base).filter fun names => base ++ names != place := by
  have hmet : (t.without place).metBelow base =
      (t.metBelow base).filter fun names => base ++ names != place := by
    have hplaces : (t.without place).files.map (·.1) = (t.files.map (·.1)).filter (· != place) := by
      rw [filter_map]
      rfl
    rw [metBelow, metBelow, hplaces]
    generalize t.files.map (·.1) = places
    rw [filter_map, filter_comm]
    refine congrArg _ (filter_congr fun other hother => ?_)
    have hbelow := (mem_filter.mp hother).2
    rw [isBelow, Bool.and_eq_true, List.isPrefixOf_iff_prefix] at hbelow
    rw [Function.comp, ← prefix_iff_eq_append.mp hbelow.1]
    simp
  have hperm : ((t.namesBelow base).filter fun names => base ++ names != place).Perm
      ((t.without place).metBelow base) := by
    rw [hmet]
    exact (mergeSort_perm _ _).filter _
  have hsorted : (t.namesBelow base).Pairwise fun a b => namesLE a b = true :=
    (pairwise_mergeSort_of_key namesLE id namesLE_iff _).imp (namesLE_iff _ _).mpr
  rw [← mergeSort_of_metBelow _ base _ hperm, mergeSort_of_pairwise (hsorted.filter _)]

section Without

variable {t : Tree} {place : Place} {bytes : List UInt8} (hfile : t.fileAt? place = some bytes)
include hfile

/-- Without a file, directories are the same. -/
theorem sameDirectories_without : t.SameDirectories (t.without place) := by
  constructor
  funext base
  have hfiles : t.files.any (isBelow ·.1 base) = true ↔
      isBelow place base = true ∨ (t.without place).files.any (isBelow ·.1 base) = true := by
    simp only [any_eq_true]
    constructor
    · rintro ⟨entry, hentry, hbelow⟩
      by_cases hplace : entry.1 = place
      · exact .inl (hplace ▸ hbelow)
      · exact .inr ⟨entry, mem_filter.mpr ⟨hentry, by simpa using hplace⟩, hbelow⟩
    · rintro (hbelow | ⟨entry, hentry, hbelow⟩)
      · exact ⟨_, mem_files_of_fileAt? hfile, hbelow⟩
      · exact ⟨entry, mem_of_mem_filter hentry, hbelow⟩
  have habove := isBelow_iff place base
  rw [Bool.eq_iff_iff, hasDirectoryAt, hasDirectoryAt]
  simp only [without, Bool.or_eq_true, any_cons, List.isEmpty_iff, List.isPrefixOf_iff_prefix]
    at hfiles ⊢
  tauto

/-- Without a file there are no more files. -/
theorem isFile_of_isFile_without (h : (t.without place).isFile file = true) :
    t.isFile file = true := by
  rw [isFile, ← (sameDirectories_without hfile).place?] at h
  unfold isFile
  cases hplace : t.place? file with
  | none => simp [hplace] at h
  | some other =>
    by_cases hother : other = place <;> simp_all [hasFileAt, fileAt?_without]

/-- What a listing looks up without the file, it does with it. -/
theorem lookedUp_without_subset (dir : Path) (rule : ListingRule) :
    (t.without place).lookedUp dir rule ⊆ t.lookedUp dir rule := by
  have hsame := sameDirectories_without hfile
  unfold lookedUp
  rw [← hsame.place?, ← hsame.hasDirectoryAt]
  cases t.place? dir with
  | none => exact Subset.refl _
  | some base =>
    refine map_subset _ fun entry hentry => ?_
    obtain ⟨hmem, hlooked⟩ := mem_filter.mp hentry
    refine mem_filter.mpr ⟨?_, hlooked⟩
    have hne : entry ≠ [] := by
      rintro rfl
      simp [isBelow] at hlooked
    rw [mem_entries_iff _ hne, ← hsame.hasDirectoryAt] at hmem
    refine (mem_entries_iff t hne).mpr (hmem.imp_right fun hother => ?_)
    rw [hasFileAt, fileAt?_without] at hother
    split at hother
    · cases hother
    · exact hother

variable (hplain : ".." ∉ place)
include hplain

/-- The place of names is the file's. -/
theorem place?_of_fileAt? {dir : Path} {base : List String}
    (hbase : t.place? dir = some base) (h : base ++ names = place) :
    t.place? { dir with names := dir.names ++ names } = some place := by
  have hmem : base ++ names ∈ t.files.map (·.1) := h ▸ mem_map_of_mem (mem_files_of_fileAt? hfile)
  have hnames : ".." ∉ names := fun hdots => hplain (h ▸ mem_append_right base hdots)
  rw [place?_below, hbase, Option.bind_some, follow?_of_mem hnames hmem, h]

variable (hbytes : Text.ofBytes? bytes = none)
include hbytes

/-- Without an unreadable file, the same texts are read. -/
theorem readsLike_without : t.ReadsLike (t.without place) where
  toSameDirectories := sameDirectories_without hfile
  readText? := by
    funext file
    rw [readText?, readText?, read?, read?, (sameDirectories_without hfile).place?]
    cases (t.without place).place? file with
    | none => rfl
    | some other =>
      rw [Option.bind_some, Option.bind_some, fileAt?_without]
      split
      · next hother => rw [hother, hfile, Option.bind_some, hbytes, Option.bind_none]
      · rfl
  sourceFiles dir rule := by
    rw [sourceFiles, sourceFiles, ← (sameDirectories_without hfile).place?,
      ← (sameDirectories_without hfile).hasDirectoryAt]
    cases hbase : t.place? dir with
    | none => rfl
    | some base =>
      dsimp only
      split
      · rw [namesBelow_without, filter_filter, filter_map, filter_map,
          filter_filter, filter_filter]
        refine congrArg _ (filter_congr fun names _ => ?_)
        -- The names that lead to the file are those that cannot be read.
        by_cases hnames : base ++ names = place
        · have hread :
              t.isReadable { dir with names := dir.names ++ names } = false := by
            rw [isReadable, readText?, read?, place?_of_fileAt? hfile hplain hbase hnames,
              Option.bind_some, hfile, Option.bind_some, hbytes, Option.isSome_none]
          simp [hread]
        · have hother : (base ++ names != place) = true := bne_iff_ne.mpr hnames
          simp [hother]
      · rfl

end Without

end Tree

/-- Removing repetitions and passing over trade places. -/
theorem filter_unique {α : Type} [BEq α] [LawfulBEq α] (keep : α → Bool) (items : List α) :
    (Text.unique items).filter keep = Text.unique (items.filter keep) := by
  have hadd : ∀ (more found : List α), (more.foldl Text.addUnique found).filter keep =
      (more.filter keep).foldl Text.addUnique (found.filter keep) := by
    intro more
    induction more with
    | nil => intro found; rfl
    | cons item rest ih =>
      intro found
      rw [foldl_cons, ih, filter_addUnique, filter_cons]
      split <;> rfl
  exact hadd items []

namespace Candidates

/-- What lists the files of each kind. -/
def kinds : List (Project → List Path) :=
  [components, hooks, contexts, utilities, stores, all]

/-- The facts of all candidates are needed. -/
theorem mem_neededFiles {candidates : Project → List Path} (h : candidates ∈ kinds) {p : Project}
    (hfile : file ∈ candidates p) (pages : List PageCandidate) :
    file ∈ Catalog.neededFiles p pages := by
  simp only [kinds, mem_cons, not_mem_nil, or_false] at h
  rcases h with rfl | rfl | rfl | rfl | rfl | rfl <;> simp [Catalog.neededFiles, hfile]

/-- Putting together and passing over trade places. -/
theorem filter_followedBy (keep : Path → Bool) (files others : List Path) :
    (followedBy files others).filter keep =
      followedBy (files.filter keep) (others.filter keep) := by
  rw [followedBy, followedBy, filter_append, filter_comm]
  refine congrArg _ (filter_congr fun file hfile => ?_)
  have hkeep := (mem_filter.mp hfile).2
  rw [Bool.eq_iff_iff]
  simp [hkeep]

variable {p : Project} {u : Tree} (h : p.tree.ReadsLike u)
include h

/-- The same files of several directories can be read. -/
theorem unique_readsLike (directories : List String) (rule : Tree.ListingRule) :
    (Text.unique (directories.flatMap fun dir =>
        p.tree.sourceFiles (p.root / dir) rule)).filter p.tree.isReadable =
      (Text.unique (directories.flatMap fun dir =>
        u.sourceFiles (p.root / dir) rule)).filter p.tree.isReadable := by
  rw [filter_unique, filter_unique, filter_flatMap, filter_flatMap,
    funext fun dir => h.sourceFiles (p.root / dir) rule]

/-- The kinds have the same readable files. -/
theorem kinds_readsLike : ∀ candidates ∈ kinds, (candidates p).filter p.tree.isReadable =
    (candidates (p.inTree u)).filter p.tree.isReadable := by
  have hbelow (directories : List String) : (below p directories).filter p.tree.isReadable =
      (below (p.inTree u) directories).filter p.tree.isReadable :=
    unique_readsLike h directories _
  have hfilter {files others : List Path} (test : Path → Bool)
      (hfiles : files.filter p.tree.isReadable = others.filter p.tree.isReadable) :
      (files.filter test).filter p.tree.isReadable =
        (others.filter test).filter p.tree.isReadable := by
    rw [filter_comm, hfiles, filter_comm]
  have hnamed (directories : List String) (test : String → Bool) :
      (named p directories test).filter p.tree.isReadable =
        (named (p.inTree u) directories test).filter p.tree.isReadable :=
    hfilter _ (unique_readsLike h directories _)
  simp only [kinds, forall_mem_cons]
  refine ⟨hbelow _, ?_, ?_, hfilter _ (hbelow _), ?_, h.sourceFiles _ _, forall_mem_nil _⟩
  · rw [hooks, hooks, filter_followedBy, filter_followedBy, hfilter _ (hbelow _), hnamed]
  · rw [contexts, contexts, filter_followedBy, filter_followedBy, hbelow, hnamed]
  · rw [stores, stores, filter_followedBy, filter_followedBy, hfilter _ (hbelow _), hnamed]

end Candidates

namespace Classify

/-- A test looks at the file's fact only, and needs one. -/
structure OfFact {α : Type} (test : FactTable → Path → Option α) : Prop where
  congr {facts others : FactTable} {file : Path} (h : facts.fact? file = others.fact? file) :
    test facts file = test others file
  eq_none {facts : FactTable} {file : Path} (h : facts.fact? file = none) : test facts file = none

/-- A component depends on its fact. -/
theorem ofFact_component? : OfFact component? where
  congr h := by unfold component?; rw [h]
  eq_none h := by unfold component?; rw [h]

/-- Hooks depend on their fact. -/
theorem ofFact_hooks : OfFact fun facts file => Assignment.nonempty? (hooks facts file) where
  congr h := by unfold hooks; rw [h]
  eq_none h := by unfold hooks; rw [h]; rfl

/-- Contexts depend on their fact. -/
theorem ofFact_contexts : OfFact fun facts file => Assignment.nonempty? (contexts facts file) where
  congr h := by unfold contexts; rw [h]
  eq_none h := by unfold contexts; rw [h]; rfl

/-- A utility depends on its fact. -/
theorem ofFact_utility? : OfFact utility? where
  congr h := by unfold utility?; rw [h]
  eq_none h := by unfold utility?; rw [h]

/-- A store depends on its fact. -/
theorem ofFact_store? : OfFact store? where
  congr h := by unfold store?; rw [h]
  eq_none h := by unfold store?; rw [h]; rfl

/-- Actions depend on their fact. -/
theorem ofFact_serverActions? (root : Path) :
    OfFact fun facts file => serverActions? facts root file where
  congr h := by unfold serverActions?; rw [h]
  eq_none h := by unfold serverActions?; rw [h]

variable {α : Type} {test : FactTable → Path → Option α}

/-- What files qualify for is told by those that can be read. -/
theorem OfFact.qualify_eq (htest : OfFact test) (t : Tree) {facts others : FactTable}
    {files more : List Path} (h : files.filter t.isReadable = more.filter t.isReadable)
    (hfacts : ∀ file ∈ files, facts.fact? file = FactTable.extract? t file)
    (hothers : ∀ file ∈ more, others.fact? file = FactTable.extract? t file) :
    Assignment.qualify (test facts) files = Assignment.qualify (test others) more := by
  have hreadable {facts : FactTable} {files : List Path}
      (hfacts : ∀ file ∈ files, facts.fact? file = FactTable.extract? t file) :
      Assignment.qualify (test facts) files =
        Assignment.qualify (test facts) (files.filter t.isReadable) := by
    rw [Assignment.qualify, Assignment.qualify, filterMap_filter]
    refine filterMap_congr fun file hfile => ?_
    split
    · rfl
    · next hnot =>
      have hnone : facts.fact? file = none := by
        rw [hfacts file hfile, FactTable.extract?, Option.map_eq_none_iff]
        simpa [Tree.isReadable] using hnot
      rw [htest.eq_none hnone, Option.map_none]
  rw [hreadable hfacts, hreadable hothers, h]
  refine filterMap_congr fun file hfile => ?_
  have hmem : file ∈ files := mem_of_mem_filter (h ▸ hfile)
  rw [htest.congr ((hfacts file hmem).trans (hothers file (mem_of_mem_filter hfile)).symm)]

end Classify

namespace Catalog

/-- Catalogs with the same entities, pages and theirs apart. -/
structure SameEntities (c d : Catalog) : Prop where
  components : c.components = d.components
  hooks : c.hooks = d.hooks
  contexts : c.contexts = d.contexts
  utilities : c.utilities = d.utilities
  stores : c.stores = d.stores
  serverActionFiles : c.serverActionFiles = d.serverActionFiles

variable {p : Project} {u : Tree} (h : p.tree.ReadsLike u)
include h

/-- Where the same texts are read, files are assigned to the same kinds. -/
theorem sameEntities_ofFacts {facts others : FactTable} {pages more : List PageCandidate}
    (hfacts : ∀ file ∈ neededFiles p pages, facts.fact? file = FactTable.extract? p.tree file)
    (hothers : ∀ file ∈ neededFiles (p.inTree u) more,
      others.fact? file = FactTable.extract? p.tree file)
    (framework : Framework) (router : Router) :
    SameEntities (ofFacts p pages facts framework router)
      (ofFacts (p.inTree u) more others framework router) := by
  have hqualify {α : Type} {test : FactTable → Path → Option α} (htest : Classify.OfFact test)
      {candidates : Project → List Path} (hkind : candidates ∈ Candidates.kinds)
      (free : Path → Bool) :
      Assignment.qualify (test facts) ((candidates p).filter free) =
        Assignment.qualify (test others) ((candidates (p.inTree u)).filter free) := by
    refine htest.qualify_eq p.tree ?_ (fun file hfile => ?_) fun file hfile => ?_
    · rw [filter_comm, Candidates.kinds_readsLike h _ hkind, filter_comm]
    · exact hfacts file (Candidates.mem_neededFiles hkind (mem_of_mem_filter hfile) _)
    · exact hothers file (Candidates.mem_neededFiles hkind (mem_of_mem_filter hfile) _)
  have hall {α : Type} {test : FactTable → Path → Option α} (htest : Classify.OfFact test)
      {candidates : Project → List Path} (hkind : candidates ∈ Candidates.kinds) :
      Assignment.qualify (test facts) (candidates p) =
        Assignment.qualify (test others) (candidates (p.inTree u)) := by
    simpa only [filter_true] using hqualify htest hkind fun _ => true
  have hassign : Assignment.assign p facts = Assignment.assign (p.inTree u) others := by
    simp only [Assignment.assign]
    rw [hall Classify.ofFact_component? (by simp [Candidates.kinds]),
      hqualify Classify.ofFact_hooks (by simp [Candidates.kinds]),
      hqualify Classify.ofFact_contexts (by simp [Candidates.kinds]),
      hqualify Classify.ofFact_utility? (by simp [Candidates.kinds])]
  have hfound {α : Type} {test : FactTable → Path → Option α} (htest : Classify.OfFact test)
      {candidates : Project → List Path} (hkind : candidates ∈ Candidates.kinds) :
      (candidates p).filterMap (test facts) =
        (candidates (p.inTree u)).filterMap (test others) := by
    simpa only [Assignment.map_snd_qualify, ← filterMap_eq_flatMap_toList]
      using congrArg (List.map (·.2)) (hall htest hkind)
  constructor <;> simp only [ofFacts, hassign]
  · rw [hfound Classify.ofFact_store? (by simp [Candidates.kinds])]
  · exact congrArg _ (hfound (Classify.ofFact_serverActions? p.root) (by simp [Candidates.kinds]))

end Catalog

/-- A search stops also where more is passed over. -/
theorem StopsAt.mono {α : Type} {passed passes stopped stops : α → Prop}
    (hpass : ∀ a, passed a → passes a) (hstop : ∀ a, stopped a → stops a) {items : List α}
    (h : StopsAt passed stopped items) : StopsAt passes stops items := by
  induction h with
  | here ha => exact .here (hstop _ ha)
  | later ha _ ih => exact .later (hpass _ ha) ih

/-- Lists with the same items of a kind give the same. -/
theorem flatMap_eq_of_filter {α β : Type} {keep : α → Bool} {f : α → List β} {items others : List α}
    (h : items.filter keep = others.filter keep) (hnil : ∀ a, keep a = false → f a = []) :
    items.flatMap f = others.flatMap f := by
  have hkept (items : List α) : (items.filter keep).flatMap f = items.flatMap f := by
    induction items with
    | nil => rfl
    | cons a rest ih =>
      cases ha : keep a with
      | true => simp [ha, ih]
      | false => simp [ha, ih, hnil a ha]
  rw [← hkept, h, hkept]

/-- A readable file is a file. -/
theorem Tree.isFile_of_isReadable {t : Tree} (h : t.isReadable file = true) :
    t.isFile file = true := by
  obtain ⟨content, hcontent⟩ := Option.isSome_iff_exists.mp h
  exact isFile_of_readText? hcontent

namespace Project

variable {p : Project} {u : Tree}

/-- The same routes are declared. -/
theorem declaredRoutes_readsLike (h : p.tree.ReadsLike u) :
    (p.inTree u).declaredRoutes = p.declaredRoutes := by
  have hreadable : u.isReadable = p.tree.isReadable := by
    funext file
    rw [Tree.isReadable, Tree.isReadable, h.readText?]
  have hconventional : ((routeFiles.map (p.root / ·)).filter p.tree.isFile).filter
      p.tree.isReadable =
        ((routeFiles.map (p.root / ·)).filter u.isFile).filter p.tree.isReadable := by
    rw [filter_filter, filter_filter]
    refine filter_congr fun file _ => ?_
    cases hfile : p.tree.isReadable file with
    | false => rfl
    | true =>
      rw [Tree.isFile_of_isReadable hfile, Tree.isFile_of_isReadable (hreadable ▸ hfile)]
  have hcandidates : (p.inTree u).routeFileCandidates.filter (p.tree.isReadable ·.1) =
      p.routeFileCandidates.filter (p.tree.isReadable ·.1) := by
    unfold routeFileCandidates
    dsimp only [inTree]
    generalize (routeFiles.map (p.root / ·)).filter p.tree.isFile = files at hconventional ⊢
    generalize (routeFiles.map (p.root / ·)).filter u.isFile = others at hconventional ⊢
    rw [filter_append, filter_append, filter_map, filter_map, filter_map, filter_map]
    refine congrArg₂ (· ++ ·) (congrArg (List.map _) hconventional.symm) (congrArg (List.map _) ?_)
    have hsuggested := h.sourceFiles (p.root / "src") { skipDirectories := p.ignored }
    refine (filter_comm ..).trans ((congrArg _ hsuggested.symm).trans
      (Eq.trans ?_ (filter_comm ..)))
    refine filter_congr fun file hfile => ?_
    have hread := (mem_filter.mp hfile).2
    have hcontains : others.contains file = files.contains file := by
      have hmem : file ∈ others.filter p.tree.isReadable ↔
          file ∈ files.filter p.tree.isReadable := by
        rw [hconventional]
      rw [Bool.eq_iff_iff]
      simpa [mem_filter, hread] using hmem
    rw [hcontains]
  unfold declaredRoutes
  rw [show (p.inTree u).tree.readText? = p.tree.readText? from h.readText?.symm]
  refine flatMap_eq_of_filter hcandidates ?_
  rintro ⟨file, conventional⟩ hnone
  have hnotext : p.tree.readText? file = none := by simpa [Tree.isReadable] using hnone
  dsimp only
  rw [hnotext]

/-- A file that is not there any more makes no lookup succeed. -/
theorem checkFile_of_isFile [Host] {t : Tree} (h : t.SameDirectories u)
    (hfiles : ∀ file, u.isFile file = true → t.isFile file = true)
    {answer : Except LookupError Bool} (hanswer : answer ≠ .ok true)
    (hcheck : t.checkFile file = answer) : u.checkFile file = answer := by
  subst hcheck
  unfold Tree.checkFile at hanswer ⊢
  rw [← h.isTooLong]
  split
  · rfl
  · next hshort =>
    rw [if_neg hshort] at hanswer
    cases hfile : u.isFile file with
    | false =>
      cases hbefore : t.isFile file with
      | false => rfl
      | true => exact absurd (congrArg _ hbefore) hanswer
    | true => exact absurd (congrArg _ (hfiles file hfile)) hanswer

/-- Without a file the search for a component fails no less. -/
theorem ComponentFails.inTree [Host] (h : p.tree.SameDirectories u)
    (hfiles : ∀ file, u.isFile file = true → p.tree.isFile file = true) {component : String}
    {e : LookupError} (hfails : p.ComponentFails component e) :
    (p.inTree u).ComponentFails component e :=
  StopsAt.mono (fun _ => checkFile_of_isFile h hfiles (by simp))
    (fun _ => checkFile_of_isFile h hfiles (by simp)) hfails

end Project

/-- A file that is no text is as good as absent: the catalogs with and without it have the same
entities. There is one with the file if there is one without, and without it there is none only
where the search for a component's file stops. No path is looked up without the file that is not
looked up with it. -/
theorem unreadable_as_absent [Host] (p : Project) (place : Place) (bytes : List UInt8)
    (hfile : p.tree.fileAt? place = some bytes) (hbytes : Text.ofBytes? bytes = none)
    (hplain : ".." ∉ place) (s s' : Schedule) (hs : s.Complete) (hs' : s'.Complete)
    (framework : Framework) (router : Router) :
    (∀ d, Catalog.build (p.inTree (p.tree.without place)) s' framework router = .ok d →
      ∃ c, Catalog.build p s framework router = .ok c ∧ c.SameEntities d) ∧
    (∀ e, Catalog.build (p.inTree (p.tree.without place)) s' framework router = .error e →
      (p.inTree (p.tree.without place)).PagesFail router e) ∧
    ((Catalog.lookups p router).any p.tree.isTooLong = false →
      (Catalog.lookups (p.inTree (p.tree.without place)) router).any
        (p.tree.without place).isTooLong = false) := by
  have h := Tree.readsLike_without hfile hplain hbytes
  have hends := (p.inTree (p.tree.without place)).ends_build s' framework router
  have hlookups : Catalog.lookups (p.inTree (p.tree.without place)) router ⊆
      Catalog.lookups p router :=
    append_subset.mpr ⟨subset_append_left .., fun file hbelow =>
      mem_append_right _ (Tree.lookedUp_without_subset hfile p.root _ hbelow)⟩
  have hshort : (Catalog.lookups p router).any p.tree.isTooLong = false →
      (Catalog.lookups (p.inTree (p.tree.without place)) router).any
        (p.tree.without place).isTooLong = false := by
    intro hnone
    rw [← h.isTooLong]
    exact any_eq_false.mpr fun file hmem => any_eq_false.mp hnone file (hlookups hmem)
  refine ⟨fun d hd => ?_, fun e he => (he ▸ hends).of_error, hshort⟩
  have hpasses := (hd ▸ hends).of_ok.1
  cases hbuild : Catalog.build p s framework router with
  | error e =>
    obtain ⟨hrouter, page, hpage, hfails⟩ := (hbuild ▸ p.ends_build s framework router).of_error
    refine absurd ⟨hrouter, page, ?_, hfails.inTree h.toSameDirectories ?_⟩ (hpasses e)
    · rwa [Project.declaredRoutes_readsLike h]
    · exact fun file => Tree.isFile_of_isFile_without hfile
  | ok c =>
    obtain ⟨pages, -, rfl⟩ := Catalog.build_eq_ok hbuild
    obtain ⟨others, -, rfl⟩ := Catalog.build_eq_ok hd
    refine ⟨_, rfl, Catalog.sameEntities_ofFacts h (fun file hneeded => ?_) (fun file hneeded => ?_)
      framework router⟩
    · rw [FactTable.fact?_load _ s hs, if_pos hneeded]
      rfl
    · rw [FactTable.fact?_load _ s' hs', if_pos hneeded, FactTable.extract?, FactTable.extract?,
        h.readText?]
      rfl

/-- Directories that lie in each other. -/
def deepNames (n : Nat) : List String :=
  List.replicate n "d"

section

attribute [local instance] Host.usual

/-- The length of a path below such directories. -/
theorem byteSize_deepNames (n : Nat) {rest : List String} (hrest : rest ≠ []) :
    Text.byteSize (Path.mk .slash (deepNames n ++ rest)).toString.toList =
      2 * n + Text.byteSize (Path.mk .slash rest).toString.toList := by
  induction n with
  | zero => simp [deepNames]
  | succ n ih =>
    obtain ⟨first, more, hcons⟩ :=
      exists_cons_of_ne_nil (append_ne_nil_of_right_ne_nil (deepNames n) hrest)
    have hstep : (Path.mk .slash ("d" :: first :: more)).toString =
        "/d" ++ (Path.mk .slash (first :: more)).toString := by
      change "/" ++ Text.joinStrings "/" _ = "/d" ++ ("/" ++ Text.joinStrings "/" _)
      rw [Text.joinStrings, String.intercalate_cons_cons, ← String.append_assoc,
        ← String.append_assoc]
      rfl
    have htwo : Text.byteSize "/d".toList = 2 := by decide +kernel
    change Text.byteSize (Path.mk .slash ("d" :: (deepNames n ++ rest))).toString.toList = _
    rw [hcons, hstep, String.toList_append, Text.byteSize_append, htwo, ← hcons, ih]
    omega

/-- Short names are looked up. -/
theorem Tree.meetsLongName_eq_false {t : Tree} {here : Place}
    (h : ∀ name ∈ names, isLongName name = false) : t.meetsLongName here names = false := by
  rw [meetsLongName, any_eq_false.mpr fun name hname => Bool.eq_false_iff.mp (h name hname),
    Bool.false_and]

/-- A short name without characters that paths cannot have. -/
def isPlainName (name : String) : Bool :=
  !Tree.isLongName name && !name.toList.contains '\x00' && name.toList.all Text.isNameChar

/-- A route whose component is in an unreadable file. -/
def valleyText : List Char :=
  "<Route path=\"/a\" element=\x7b<Card />\x7d />".toList

/-- A project below many directories, its component's file no text. -/
def valleyProject (n : Nat) : Project where
  tree :=
    { files := [(deepNames n ++ ["src", "App.tsx"], (String.ofList valleyText).toUTF8.toList),
        (deepNames n ++ ["src", "components", "Card.tsx"], [255])]
      directories := [] }
  root := ⟨.slash, deepNames n⟩
  ignored := []

/-- Where the file of the component lies. -/
def valleyPlace (n : Nat) : Place :=
  deepNames n ++ ["src", "components", "Card.tsx"]

section Valley

variable (n : Nat)

/-- Looking up a path below directories, given the names there. -/
theorem checkFile_valleyProject (t : Tree) (s : String) (rest : List String)
    (hs : Path.ofString s = ⟨.relative, rest⟩) (hne : rest ≠ []) (hrest : rest.all isPlainName) :
    t.checkFile ((valleyProject n).root / s) =
      if Tree.pathLimit < 2 * n + Text.byteSize (Path.mk .slash rest).toString.toList then
        .error .tooLong else .ok (t.isFile ⟨.slash, deepNames n ++ rest⟩) := by
  have hjoin : (valleyProject n).root / s = ⟨.slash, deepNames n ++ rest⟩ := by
    change Path.join _ _ = _
    rw [hs]
    rfl
  have hnames : ∀ name ∈ deepNames n ++ rest, isPlainName name = true := by
    intro name hname
    rcases mem_append.mp hname with hname | hname
    · rw [eq_of_mem_replicate hname]
      decide +kernel
    · exact all_eq_true.mp hrest name hname
  simp only [isPlainName, Bool.and_eq_true, Bool.not_eq_true'] at hnames
  have hnull : Path.hasNull ⟨.slash, deepNames n ++ rest⟩ = false :=
    any_eq_false.mpr fun name hname => Bool.eq_false_iff.mp (hnames name hname).1.2
  have hsurrogate : Path.hasSurrogate ⟨.slash, deepNames n ++ rest⟩ = false := by
    refine any_eq_false.mpr fun name hname => ?_
    simpa using all_eq_true.mp (hnames name hname).2
  rw [hjoin, Tree.checkFile, Tree.isTooLong, hnull, hsurrogate,
    Tree.meetsLongName_eq_false fun name hname => (hnames name hname).1.1,
    byteSize_deepNames n hne]
  simp [Path.isAbsolute]

/-- Where no file has the place, a path of plain names leads to none. -/
theorem Tree.isFile_eq_false {t : Tree} (hplain : ".." ∉ names)
    (h : ∀ entry ∈ t.files, entry.1 ≠ names) : t.isFile ⟨.slash, names⟩ = false := by
  unfold isFile
  cases hplace : t.place? ⟨.slash, names⟩ with
  | none => rfl
  | some place =>
    cases hbytes : t.fileAt? place with
    | none => simp [hasFileAt, hbytes]
    | some bytes => exact absurd (eq_of_follow? hplain hplace) (h _ (mem_files_of_fileAt? hbytes))

/-- No deep name leads upwards. -/
theorem plain_deepNames {rest : List String} (h : ".." ∉ rest) : ".." ∉ deepNames n ++ rest := by
  simp [deepNames, h]

/-- All readable files have one text. -/
theorem readText?_valleyProject {content : List Char}
    (h : (valleyProject n).tree.readText? file = some content) : content = valleyText := by
  obtain ⟨bytes, hbytes, hcontent⟩ := Option.bind_eq_some_iff.mp h
  obtain ⟨place, -, hfile⟩ := Option.bind_eq_some_iff.mp hbytes
  have hmem := Tree.mem_files_of_fileAt? hfile
  simp only [valleyProject, mem_cons, not_mem_nil, or_false, Prod.mk.injEq] at hmem
  rcases hmem with ⟨-, rfl⟩ | ⟨-, rfl⟩
  · have happ : Text.ofBytes? (String.ofList valleyText).toUTF8.toList = some valleyText := by
      decide +kernel
    exact Option.some.inj (hcontent.symm.trans happ)
  · cases hcontent

/-- All declared pages have the component. -/
theorem componentName_valleyProject {page : Page} (h : page ∈ (valleyProject n).declaredRoutes) :
    page.componentName = some "Card" := by
  have hdeclared : Route.declarations valleyText = [⟨"/a", "Card"⟩] := by decide +kernel
  obtain ⟨candidate, -, hpage⟩ := mem_flatMap.mp h
  change page ∈ (valleyProject n).pagesDeclaredBy candidate at hpage
  unfold Project.pagesDeclaredBy at hpage
  split at hpage
  · next content hcontent =>
    rw [readText?_valleyProject n hcontent] at hpage
    split at hpage
    · rw [Project.declaredPages, hdeclared] at hpage
      rw [mem_singleton.mp hpage]
      rfl
    · cases hpage
  · cases hpage

/-- The project without the file of the component. -/
def valleyWithout : Project :=
  (valleyProject n).inTree ((valleyProject n).tree.without (valleyPlace n))

/-- The file of the component is there, and is no text. -/
theorem fileAt?_valleyProject : (valleyProject n).tree.fileAt? (valleyPlace n) = some [255] := by
  have hother : (valleyPlace n == deepNames n ++ ["src", "App.tsx"]) = false :=
    beq_false_of_ne (by simp [valleyPlace])
  rw [Tree.fileAt?, valleyProject, lookup_cons, hother]
  exact lookup_cons_self

/-- The declaring file is readable. -/
theorem readText?_app_valleyProject :
    (valleyProject n).tree.readText? ((valleyProject n).root / "src/App.tsx") =
      some valleyText := by
  have hfile : (valleyProject n).tree.fileAt? (deepNames n ++ ["src", "App.tsx"]) =
      some (String.ofList valleyText).toUTF8.toList := lookup_cons_self
  have hplace : (valleyProject n).tree.place? ((valleyProject n).root / "src/App.tsx") =
      some (deepNames n ++ ["src", "App.tsx"]) :=
    @Tree.follow?_of_mem _ [] _ (plain_deepNames n (by decide))
      (mem_map_of_mem (Tree.mem_files_of_fileAt? hfile))
  rw [Tree.readText?, Tree.read?, hplace, Option.bind_some, hfile]
  decide +kernel

/-- Without the file, a card is declared. -/
theorem exists_declared_valleyWithout : ∃ page ∈ (valleyWithout n).declaredRoutes,
    page.componentName = some "Card" := by
  have hdeclared : Route.declarations valleyText = [⟨"/a", "Card"⟩] := by decide +kernel
  have htext := readText?_app_valleyProject n
  rw [valleyWithout, Project.declaredRoutes_readsLike (Tree.readsLike_without
    (fileAt?_valleyProject n) (plain_deepNames n (by decide)) rfl)]
  refine ⟨Project.declaredPage ((valleyProject n).root / "src/App.tsx") ⟨"/a", "Card"⟩,
    mem_flatMap.mpr ⟨((valleyProject n).root / "src/App.tsx", true), ?_, ?_⟩, rfl⟩
  · have hfile : (valleyProject n).tree.isFile ((valleyProject n).root / "src/App.tsx") = true :=
      Tree.isFile_of_isReadable (by rw [Tree.isReadable, htext, Option.isSome_some])
    refine mem_append_left _ (mem_map_of_mem (mem_filter.mpr ⟨?_, hfile⟩))
    exact mem_map_of_mem (by simp [Project.routeFiles])
  · dsimp only
    rw [htext]
    dsimp only
    rw [if_pos (by decide +kernel), Project.declaredPages, hdeclared]
    exact mem_singleton_self _

/-- Without the component's file only the declaration is found. -/
theorem checkFile_valleyWithout (h : 2 * n + 24 ≤ Tree.pathLimit) (s : String) (rest : List String)
    (hs : Path.ofString s = ⟨.relative, rest⟩) (hplain : ".." ∉ rest) (hrest : rest.all isPlainName)
    (hsize : Text.byteSize (Path.mk .slash rest).toString.toList ≤ 24)
    (hother : rest ≠ [] ∧ rest ≠ ["src", "App.tsx"]) :
    (valleyWithout n).tree.checkFile ((valleyWithout n).root / s) = .ok false := by
  have hfile : (valleyWithout n).tree.isFile ⟨.slash, deepNames n ++ rest⟩ = false := by
    refine Tree.isFile_eq_false (plain_deepNames n hplain) fun entry hentry => ?_
    obtain ⟨hmem, hne⟩ := mem_filter.mp hentry
    simp only [valleyProject, mem_cons, not_mem_nil, or_false] at hmem
    rcases hmem with rfl | rfl
    · simpa using hother.2.symm
    · simp [valleyPlace] at hne
  refine (checkFile_valleyProject n _ s rest hs hother.1 hrest).trans ?_
  rw [if_neg (by omega), hfile]

/-- Without its file, the search stops at too long a path. -/
theorem componentFails_valleyWithout (h : 2 * n + 24 ≤ Tree.pathLimit)
    (hlong : Tree.pathLimit < 2 * n + 29) : (valleyWithout n).ComponentFails "Card" .tooLong := by
  have hpassed (name : String) := checkFile_valleyWithout n h ("src/components/" ++ name)
    ["src", "components", name]
  have htsx := hpassed "Card.tsx" (by decide +kernel) (by decide) (by decide +kernel)
    (by decide +kernel)
    (by decide)
  have hjsx := hpassed "Card.jsx" (by decide +kernel) (by decide) (by decide +kernel)
    (by decide +kernel)
    (by decide)
  have hjs := hpassed "Card.js" (by decide +kernel) (by decide) (by decide +kernel)
    (by decide +kernel)
    (by decide)
  refine .later htsx (.later hjsx (.later hjs (.here ?_)))
  have hsize : Text.byteSize
      (Path.mk .slash ["src", "components", "Card", "Card.tsx"]).toString.toList = 29 := by
    decide +kernel
  refine (checkFile_valleyProject n _ _ ["src", "components", "Card", "Card.tsx"]
    (by decide +kernel) (by simp)
    (by decide +kernel)).trans (if_pos ?_)
  rwa [hsize]

/-- With its file, the component is found if its path is short. -/
theorem not_componentFails_valleyProject (h : 2 * n + 24 ≤ Tree.pathLimit) (e : LookupError) :
    ¬ (valleyProject n).ComponentFails "Card" e := by
  have hfile := fileAt?_valleyProject n
  have hplace : (valleyProject n).tree.place? ⟨.slash, valleyPlace n⟩ = some (valleyPlace n) :=
    @Tree.follow?_of_mem _ [] _ (plain_deepNames n (by decide))
      (mem_map_of_mem (Tree.mem_files_of_fileAt? hfile))
  have hfound : (valleyProject n).tree.checkFile
      ((valleyProject n).root / ("src/components/" ++ "Card" ++ ".tsx")) = .ok true := by
    have hsize : Text.byteSize
        (Path.mk .slash ["src", "components", "Card.tsx"]).toString.toList = 24 := by
      decide +kernel
    refine (checkFile_valleyProject n _ _ ["src", "components", "Card.tsx"]
      (by decide +kernel) (by simp)
      (by decide +kernel)).trans ?_
    rw [hsize, if_neg h.not_gt, ← valleyPlace, Tree.isFile, hplace]
    simp [Tree.hasFileAt, hfile]
  intro hfails
  cases hfails with
  | here hstop => cases hfound.symm.trans hstop
  | later hpass => cases hfound.symm.trans hpass

end Valley

/-- With and without the component's file, the project has the same entities if its pages are files;
if they are declared, the search stops where there is no catalog. -/
theorem unreadable_as_absent_valleyProject :
    (valleyProject 2034).tree.fileAt? (valleyPlace 2034) = some [255] ∧
    Text.ofBytes? [255] = none ∧ ".." ∉ valleyPlace 2034 ∧ (Schedule.inOrder 1).Complete ∧
    (∃ c d, Catalog.build (valleyProject 2034) (.inOrder 1) .react .nextjsPages = .ok c ∧
      Catalog.build (valleyWithout 2034) (.inOrder 1) .react .nextjsPages = .ok d ∧
      c.SameEntities d) ∧
    ∀ e, Catalog.build (valleyWithout 2034) (.inOrder 1) .react .unknown = .error e →
      (valleyWithout 2034).PagesFail .unknown e := by
  have hplain : ".." ∉ valleyPlace 2034 := plain_deepNames 2034 (by decide)
  have hcomplete : (Schedule.inOrder 1).Complete := fun n => List.Perm.refl _
  have habsent := unreadable_as_absent (valleyProject 2034) (valleyPlace 2034) [255]
    (fileAt?_valleyProject 2034) rfl hplain (.inOrder 1) (.inOrder 1) hcomplete hcomplete .react
  obtain ⟨c, hc, hsame⟩ := (habsent .nextjsPages).1 _ rfl
  exact ⟨fileAt?_valleyProject 2034, rfl, hplain, hcomplete, ⟨c, _, hc, rfl, hsame⟩,
    (habsent .unknown).2.1⟩

/-- Without a file that is no text there is no catalog, with it one. -/
theorem build_fails_valleyWithout :
    (valleyProject 2034).tree.fileAt? (valleyPlace 2034) = some [255] ∧ Text.ofBytes? [255] = none ∧
    (∃ c, Catalog.build (valleyProject 2034) (.inOrder 1) .react .unknown = .ok c) ∧
    ∃ e, Catalog.build (valleyWithout 2034) (.inOrder 1) .react .unknown = .error e := by
  refine ⟨fileAt?_valleyProject 2034, rfl, ?_, ?_⟩
  · cases hbuild : Catalog.build (valleyProject 2034) (.inOrder 1) .react .unknown with
    | ok c => exact ⟨c, rfl⟩
    | error e =>
      obtain ⟨-, page, hpage, hfails⟩ :=
        (hbuild ▸ (valleyProject 2034).ends_build (.inOrder 1) .react .unknown).of_error
      rw [componentName_valleyProject 2034 hpage] at hfails
      exact absurd hfails (not_componentFails_valleyProject 2034 (by decide) e)
  · cases hbuild : Catalog.build (valleyWithout 2034) (.inOrder 1) .react .unknown with
    | error e => exact ⟨e, rfl⟩
    | ok c =>
      obtain ⟨page, hpage, hname⟩ := exists_declared_valleyWithout 2034
      refine absurd ⟨⟨by simp, by simp⟩, page, hpage, ?_⟩
        ((hbuild ▸ (valleyWithout 2034).ends_build (.inOrder 1) .react .unknown).of_ok.1 .tooLong)
      rw [hname]
      exact componentFails_valleyWithout 2034 (by decide) (by decide)

end

end SiteAtlas
