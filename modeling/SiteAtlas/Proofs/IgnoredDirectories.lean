import SiteAtlas.Proofs.Identity
import SiteAtlas.Proofs.Obstacles

/-!
# Directories that are passed over

A listing leaves out what lies below an ignored directory, but only below the one that is listed.
Server actions are looked for from the root on, so they avoid ignored directories; the other kinds
in conventional directories, even with ignored names. A file therefore avoids ignored directories
exactly if its conventional directory does.
-/

namespace SiteAtlas

open List

variable {file : Path}

variable (ignored : List String) (kind : SourceKind)

namespace Project

variable (p : Project)

/-- Names lead from the root to the file of a path text. -/
structure LeadsTo (names : List String) (filePath : String) : Prop where
  ne_nil : names ≠ []
  slashFree : SlashFree names
  text : filePath = (Path.mk p.root.root (p.root.names ++ names)).toString

/-- A path text leads below the root past no ignored directory. -/
def Avoids (filePath : String) : Prop :=
  ∃ names, p.LeadsTo names filePath ∧ ∀ name ∈ names.dropLast, name ∉ p.ignored

variable {p}

/-- Only one row of names leads to a file. -/
theorem LeadsTo.unique {a b : List String} {filePath : String} (ha : p.LeadsTo a filePath)
    (hb : p.LeadsTo b filePath) : a = b := by
  have hsame : Path.mk p.root.root (p.root.names ++ a) = Path.mk p.root.root (p.root.names ++ b) :=
    HasBelow.eq_of_toString p _ _ ⟨a, ha.ne_nil, ha.slashFree, rfl⟩
      ⟨b, hb.ne_nil, hb.slashFree, rfl⟩ (ha.text.symm.trans hb.text)
  exact append_cancel_left (Path.mk.inj hsame).2

/-- A file avoids ignored directories if its names do. -/
theorem LeadsTo.avoids_iff {names : List String} {filePath : String}
    (h : p.LeadsTo names filePath) :
    p.Avoids filePath ↔ ∀ name ∈ names.dropLast, name ∉ p.ignored := by
  constructor
  · rintro ⟨other, hother, hfree⟩
    rwa [h.unique hother]
  · intro hfree
    exact ⟨names, h, hfree⟩

end Project

/-- A rule takes in no file below a passed directory. -/
theorem Tree.ListingRule.not_mem_of_takes (rule : ListingRule) (names : List String)
    (h : rule.takes names = true) : ∀ name ∈ names.dropLast, name ∉ rule.skipDirectories := by
  intro name hname hskip
  simp only [takes, Bool.and_eq_true, Bool.not_eq_true', any_eq_false] at h
  exact h.1.2 name hname (elem_eq_true_of_mem hskip)

/-- The kinds of entities looked for in directories. -/
inductive SourceKind where
  | component
  | hook
  | context
  | utility
  | store
  | serverActions
  deriving DecidableEq

namespace SourceKind

/-- The paths of the files of a kind. -/
def filePaths (c : Catalog) : SourceKind → List String
  | .component => c.components.map (·.filePath)
  | .hook => c.hooks.map (·.filePath)
  | .context => c.contexts.map (·.filePath)
  | .utility => c.utilities.map (·.filePath)
  | .store => c.stores.map (·.filePath)
  | .serverActions => c.serverActionFiles.map (·.filePath)

/-- The files of a project that may be of a kind. -/
def candidates (p : Project) : SourceKind → List Path
  | .component => Candidates.components p
  | .hook => Candidates.hooks p
  | .context => Candidates.contexts p
  | .utility => Candidates.utilities p
  | .store => Candidates.stores p
  | .serverActions => Candidates.all p

/-- The directories of a kind; for server actions, all. -/
def directories : SourceKind → List String
  | .component => Candidates.componentDirectories
  | .hook => Candidates.hookDirectories ++ ["lib", "src/lib"]
  | .context => Candidates.contextDirectories ++ ["components", "src/components"]
  | .utility => Candidates.utilityDirectories
  | .store => Candidates.storeDirectories ++ ["lib", "src/lib", "src"]
  | .serverActions => ["."]

/-- Conventional directories are given relative to the root. -/
theorem isAbsolute_directories (dir : String) (h : dir ∈ kind.directories) :
    (Path.ofString dir).isAbsolute = false := by
  revert dir
  cases kind <;> decide +kernel

/-- No directory of a kind is ignored. -/
theorem not_mem_alwaysIgnored (dir : String) (h : dir ∈ kind.directories) :
    ∀ name ∈ (Path.ofString dir).names, name ∉ Project.alwaysIgnored := by
  revert dir
  cases kind <;> decide +kernel

end SourceKind

namespace Candidates

variable (p : Project)

/-- A file is listed in a directory, ignored ones below apart. -/
def Listed (directories : List String) (file : Path) : Prop :=
  ∃ dir ∈ directories, ∃ rule : Tree.ListingRule, rule.skipDirectories = p.ignored ∧
    file ∈ p.tree.sourceFiles (p.root / dir) rule

variable {p}

/-- More directories list no less. -/
theorem Listed.mono {directories more : List String} (h : Listed p directories file)
    (hmore : directories ⊆ more) : Listed p more file := by
  obtain ⟨dir, hdir, hrule⟩ := h
  exact ⟨dir, hmore hdir, hrule⟩

/-- A file below is listed. -/
theorem listed_of_mem_below {directories : List String} (h : file ∈ below p directories) :
    Listed p directories file := by
  rw [below, mem_unique, mem_flatMap] at h
  obtain ⟨dir, hdir, hfile⟩ := h
  exact ⟨dir, hdir, _, rfl, hfile⟩

/-- Files of suggestive names are listed there. -/
theorem listed_of_mem_named {directories : List String} {test : String → Bool}
    (h : file ∈ named p directories test) : Listed p directories file := by
  replace h := mem_of_mem_filter h
  rw [mem_unique, mem_flatMap] at h
  obtain ⟨dir, hdir, hfile⟩ := h
  exact ⟨dir, hdir, _, rfl, hfile⟩

/-- Files that follow others are listed in both's directories. -/
theorem listed_of_mem_followedBy {files others : List Path} {directories more : List String}
    (hfiles : file ∈ files → Listed p directories file)
    (hothers : file ∈ others → Listed p more file) (h : file ∈ followedBy files others) :
    Listed p (directories ++ more) file := by
  rcases mem_followedBy.mp h with hfile | hother
  · exact (hfiles hfile).mono (subset_append_left _ _)
  · exact (hothers hother).mono (subset_append_right _ _)

/-- Candidates are listed. -/
theorem listed_of_mem_candidates (file : Path) (h : file ∈ kind.candidates p) :
    Listed p kind.directories file := by
  cases kind with
  | component => exact listed_of_mem_below h
  | hook =>
    exact listed_of_mem_followedBy (fun h => listed_of_mem_below (mem_of_mem_filter h))
      listed_of_mem_named h
  | context => exact listed_of_mem_followedBy listed_of_mem_below listed_of_mem_named h
  | utility => exact listed_of_mem_below (mem_of_mem_filter h)
  | store =>
    exact listed_of_mem_followedBy (fun h => listed_of_mem_below (mem_of_mem_filter h))
      listed_of_mem_named h
  | serverActions =>
    have hroot : p.root / "." = p.root := by
      rw [p.root.div_eq "." (by decide)]
      exact congrArg (Path.mk p.root.root) (append_nil _)
    refine ⟨".", mem_singleton.mpr rfl, { skipDirectories := p.ignored }, rfl, ?_⟩
    rw [hroot]
    exact h

/-- A listed file has no ignored directory on its way. -/
theorem Listed.exists_leadsTo (hplain : p.tree.PlainNames) {kind : SourceKind}
    (h : Listed p kind.directories file) : ∃ dir ∈ kind.directories, ∃ names, names ≠ [] ∧
      p.LeadsTo ((Path.ofString dir).names ++ names) file.toString ∧
      ∀ name ∈ names.dropLast, name ∉ p.ignored := by
  obtain ⟨dir, hdir, rule, hrule, hfile⟩ := h
  have hrelative := kind.isAbsolute_directories dir hdir
  obtain ⟨rest, hrest, hfree, hbelow⟩ :=
    hasBelow_of_mem_sourceFiles p hplain dir hrelative rule file hfile
  obtain ⟨-, names, -, -, htakes, rfl⟩ := Tree.mem_sourceFiles_iff_place.mp hfile
  -- `rest` leads from the root, `names` only from the listed directory, which is all the rule sees
  rw [p.root.div_eq dir hrelative] at hbelow ⊢
  obtain rfl : (Path.ofString dir).names ++ names = rest := by
    have hnames := (Path.mk.inj hbelow).2
    rw [append_assoc] at hnames
    exact append_cancel_left hnames
  refine ⟨dir, hdir, names, rule.ne_nil_of_takes names htakes, ⟨hrest, hfree, ?_⟩, ?_⟩
  · rw [append_assoc]
  · rw [← hrule]
    exact rule.not_mem_of_takes names htakes

end Candidates

/-- Actions have the path of their file. -/
theorem Classify.filePath_serverActions (facts : FactTable) (root file : Path)
    (x : ServerActionFile) (h : serverActions? facts root file = some x) :
    x.filePath = file.toString := by
  unfold serverActions? at h
  split at h
  · cases h
  · dsimp only at h
    split at h
    · cases h
    · obtain rfl := Option.some.inj h
      rfl

namespace SourceKind

/-- The files of a catalog are candidates of their kinds. -/
theorem exists_candidate (p : Project) (hplain : p.tree.PlainNames) (pages : List PageCandidate)
    (facts : FactTable) (framework : Framework) (router : Router) (filePath : String)
    (h : filePath ∈ kind.filePaths (Catalog.ofFacts p pages facts framework router)) :
    ∃ file ∈ kind.candidates p, file.toString = filePath := by
  have hkinds := Catalog.kindsClassified_ofFacts p hplain pages facts framework router
  have hclassified {α : Type} {path : α → String} {files : List Path} {found : Path → List α}
      {taken : List String} {items : List α} (hitems : Classified path files found taken items)
      (hmem : filePath ∈ items.map path) : ∃ file ∈ files, file.toString = filePath := by
    obtain ⟨-, file, hfile, htext, -⟩ := (hitems.mem_paths_iff filePath).mp hmem
    exact ⟨file, hfile, htext⟩
  cases kind with
  | component => exact hclassified hkinds.components h
  | hook => exact hclassified hkinds.hooks h
  | context => exact hclassified hkinds.contexts h
  | utility => exact hclassified hkinds.utilities h
  | store =>
    obtain ⟨x, hx, rfl⟩ := mem_map.mp h
    obtain ⟨file, hfile, hfound⟩ := mem_filterMap.mp (mem_mergeSort.mp hx)
    exact ⟨file, hfile, (Classify.filePath_store facts file x hfound).symm⟩
  | serverActions =>
    obtain ⟨x, hx, rfl⟩ := mem_map.mp h
    obtain ⟨file, hfile, hfound⟩ := mem_filterMap.mp (mem_mergeSort.mp hx)
    exact ⟨file, hfile, (Classify.filePath_serverActions facts p.root file x hfound).symm⟩

/-- Linking keeps the paths of a kind. -/
theorem filePaths_link [Host] {c linked : Catalog} {table : AliasTable}
    (h : c.link table = .ok linked) : kind.filePaths linked = kind.filePaths c := by
  have hbare (c : Catalog) : kind.filePaths c.bare = kind.filePaths c := by
    cases kind with
    | serverActions => rfl
    | component | hook | context | utility | store => exact map_map
  rw [← hbare linked, Catalog.bare_link h, hbare]

end SourceKind

/-- A scan has found no directory, or linked a built catalog. -/
theorem scan_eq_ok [Host] {tree : Tree} {path : Path} {options : ScanOptions} {c : Catalog}
    (h : scan tree path options = .ok c) : c = .empty path.resolve options.time ∨
      ∃ framework router table built linked,
        Catalog.build (.withIgnored tree path.resolve options.ignored) options.schedule framework
          router = .ok built ∧
        built.link table = .ok linked ∧ c = { linked with scannedAt := options.time } := by
  obtain ⟨-, h⟩ := of_guarded_eq_ok h
  obtain ⟨-, h⟩ := of_guarded_eq_ok h
  obtain ⟨found, -, h⟩ := exists_of_bind_eq_ok h
  split at h
  · obtain ⟨-, h⟩ := of_guarded_eq_ok h
    obtain ⟨table, -, h⟩ := exists_of_bind_eq_ok h
    obtain ⟨⟨framework, router⟩, -, h⟩ := exists_of_bind_eq_ok h
    obtain ⟨-, h⟩ := of_guarded_eq_ok h
    obtain ⟨built, hbuilt, h⟩ := exists_of_bind_eq_ok h
    obtain ⟨linked, hlinked, h⟩ := exists_of_bind_eq_ok h
    exact Or.inr ⟨framework, router, table, built, linked, eq_ok_of_mapError hbuilt,
      eq_ok_of_mapError hlinked, (Except.ok.inj h).symm⟩
  · exact Or.inl (Except.ok.inj h).symm

/-- A scan all of whose steps pass gives the linked catalog. -/
theorem scan_of_steps [Host] {tree : Tree} {path root : Path} {options : ScanOptions}
    {table : AliasTable} {framework : Framework} {router : Router} {built linked : Catalog}
    (hnull : path.hasNull = false) (hsurrogate : path.hasSurrogate = false)
    (hroot : path.resolve = root) (hcheck : tree.checkDirectory root = .ok true)
    (hstack : Host.exhausted tree.fileAt? tree.hasDirectoryAt root.names = false)
    (htable : AliasTable.ofProject tree root = .ok table)
    (hdetect : (Project.withIgnored tree root options.ignored).detect = .ok (framework, router))
    (hlookups : (Catalog.lookups (.withIgnored tree root options.ignored) router).any
      tree.isTooLong = false)
    (hbuilt : Catalog.build (.withIgnored tree root options.ignored) options.schedule framework
      router = .ok built) (hlinked : built.link table = .ok linked) :
    scan tree path options = .ok { linked with scannedAt := options.time } := by
  have hdetected : scanDetected (.withIgnored tree root options.ignored) table options framework
      router = .ok { linked with scannedAt := options.time } := by
    have htree : (Project.withIgnored tree root options.ignored).tree = tree := rfl
    rw [scanDetected, htree, hlookups, hbuilt]
    change ((built.link table).mapError ScanError.matcher >>= _) = _
    rw [hlinked]
    rfl
  rw [scan, hnull, hsurrogate, hroot, hcheck]
  change scanProject tree root options = _
  rw [scanProject, hstack, htable]
  change ((Project.withIgnored tree root options.ignored).detect >>= _) = _
  rw [hdetect]
  exact hdetected

/-- Every file of a scanned catalog lies in a conventional directory of its kind, with no ignored
directory on the way. It avoids all ignored directories exactly if the conventional one does, as it
does unless the settings say otherwise. -/
theorem scan_passes_over_ignored [Host] (tree : Tree) (hplain : tree.PlainNames) (path : Path)
    (options : ScanOptions) (c : Catalog) (h : scan tree path options = .ok c) (kind : SourceKind)
    (filePath : String) (hfile : filePath ∈ kind.filePaths c) :
    ∃ directory ∈ kind.directories, ∃ names, names ≠ [] ∧
      (Project.withIgnored tree path.resolve options.ignored).LeadsTo
        ((Path.ofString directory).names ++ names) filePath ∧
      (∀ name ∈ names.dropLast, name ∉ Project.alwaysIgnored ++ options.ignored) ∧
      ((Project.withIgnored tree path.resolve options.ignored).Avoids filePath ↔
        ∀ name ∈ (Path.ofString directory).names, name ∉ options.ignored) := by
  rcases scan_eq_ok h with rfl | ⟨framework, router, table, built, linked, hbuilt, hlinked, rfl⟩
  · cases kind <;> cases hfile
  · replace hfile : filePath ∈ kind.filePaths built := by
      rw [← kind.filePaths_link hlinked]
      cases kind <;> exact hfile
    obtain ⟨pages, -, rfl⟩ := Catalog.build_eq_ok hbuilt
    obtain ⟨file, hcandidate, rfl⟩ :=
      kind.exists_candidate _ hplain pages _ framework router filePath hfile
    obtain ⟨directory, hdirectory, names, hne, hleads, hfree⟩ :=
      (Candidates.listed_of_mem_candidates kind file hcandidate).exists_leadsTo hplain
    refine ⟨directory, hdirectory, names, hne, hleads, hfree, ?_⟩
    -- what remains are the names of the conventional directory, which no rule looks at
    have halways := kind.not_mem_alwaysIgnored directory hdirectory
    rw [hleads.avoids_iff, List.dropLast_append_of_ne_nil hne, List.forall_mem_append]
    constructor
    · rintro ⟨havoids, -⟩ name hname hignored
      exact havoids name hname (List.mem_append_right _ hignored)
    · refine fun hnone => ⟨fun name hname hmem => ?_, hfree⟩
      rcases List.mem_append.mp hmem with hmem | hmem
      · exact halways name hname hmem
      · exact hnone name hname hmem

/-- A project with a utility, and an old one. -/
def toolTree : Tree where
  files :=
    [(["utils", "a.ts"], "export const a = 1".toUTF8.toList),
      (["utils", "old", "b.ts"], "export const b = 1".toUTF8.toList)]
  directories := []

/-- The outermost directory. -/
def toolRoot : Path := ⟨.slash, []⟩

/-- The outermost directory stays. -/
theorem resolve_toolRoot : toolRoot.resolve = toolRoot := by decide +kernel

/-- The project with some directories ignored. -/
def toolProject (ignored : List String) : Project :=
  .withIgnored toolTree toolRoot ignored

/-- The utility outside the directory of old files. -/
def toolFile : Path := ⟨.slash, ["utils", "a.ts"]⟩

/-- No name in the project holds a slash. -/
theorem plainNames_toolTree : toolTree.PlainNames := by
  simp only [Tree.PlainNames, SlashFree]
  decide

/-- The utility is a candidate, whatever is ignored. -/
theorem toolFile_mem_candidates : toolFile ∈ Candidates.utilities (toolProject ignored) := by
  have hplace : toolTree.place? (toolRoot / "utils") = some ["utils"] := by decide +kernel
  have hdir : toolTree.hasDirectoryAt ["utils"] = true := by decide +kernel
  have hlisted : toolFile ∈ (toolProject ignored).filesBelow (toolRoot / "utils") := by
    change toolFile ∈ toolTree.sourceFiles (toolRoot / "utils") _
    rw [Tree.sourceFiles, hplace]
    dsimp only
    rw [if_pos hdir]
    refine mem_map.mpr ⟨["a.ts"], mem_filter.mpr ⟨?_, rfl⟩, by decide +kernel⟩
    rw [Tree.namesBelow, mem_mergeSort]
    decide +kernel
  refine mem_filter.mpr ⟨?_, by decide +kernel⟩
  rw [Candidates.below, mem_unique, mem_flatMap]
  exact ⟨"utils", by decide, hlisted⟩

/-- The facts of the files of the project. -/
def toolFacts (ignored : List String) : FactTable :=
  FactTable.load toolTree (.inOrder 1) [] (Catalog.neededFiles (toolProject ignored) [])

/-- The catalog of the project, before it is linked. -/
def toolCatalog (ignored : List String) : Catalog :=
  Catalog.ofFacts (toolProject ignored) [] (toolFacts ignored) .unknown .unknown

/-- The file is a utility. -/
theorem utility_toolFile : Classify.utility? (toolFacts ignored) toolFile ≠ none := by
  have hneeded : toolFile ∈ Catalog.neededFiles (toolProject ignored) [] := by
    simp [Catalog.neededFiles, toolFile_mem_candidates ignored]
  have htext : toolTree.readText? toolFile = some "export const a = 1".toList := by decide +kernel
  have hfact : (toolFacts ignored).fact? toolFile =
      some (.ofContent "export const a = 1".toList) := by
    rw [toolFacts, FactTable.fact?_load _ _ (fun n => List.Perm.refl _), if_pos hneeded,
      FactTable.extract?, htext]
    rfl
  rw [← Option.isSome_iff_ne_none, Classify.utility?, hfact]
  decide +kernel

/-- The utility is found, as no other kind has candidates. -/
theorem toolFile_mem_filePaths :
    toolFile.toString ∈ SourceKind.utility.filePaths (toolCatalog ignored) := by
  have hkinds := Catalog.kindsClassified_ofFacts (toolProject ignored) plainNames_toolTree []
    (toolFacts ignored) .unknown .unknown
  refine (hkinds.utilities.mem_paths_iff _).mpr
    ⟨?_, toolFile, toolFile_mem_candidates ignored, rfl, by simpa using utility_toolFile ignored⟩
  have hcomponents : Candidates.components (toolProject ignored) = [] := rfl
  have hhooks : Candidates.hooks (toolProject ignored) = [] := rfl
  have hcontexts : Candidates.contexts (toolProject ignored) = [] := rfl
  simp [hkinds.components.mem_paths_iff, hkinds.hooks.mem_paths_iff,
    hkinds.contexts.mem_paths_iff, hcomponents, hhooks, hcontexts]

section

attribute [local instance] Host.usual

/-- Scanning the project finds the utility, whatever is ignored. -/
theorem exists_scan_toolTree :
    ∃ c, scan toolTree toolRoot { schedule := .inOrder 1, ignored } = .ok c ∧
      toolFile.toString ∈ SourceKind.utility.filePaths c := by
  have hcheck : toolTree.checkDirectory toolRoot = .ok true := by decide +kernel
  have hmissing : ∀ name ∈ "package.json" :: AliasTable.configFiles,
      toolTree.checkFile (toolRoot / name) = .ok false := by
    decide +kernel
  have hmanifest : (toolProject ignored).manifest = .ok [] :=
    Project.manifest_of_missing (hmissing _ mem_cons_self)
  have hdetect : (toolProject ignored).detect = .ok (.unknown, .unknown) := by
    rw [Project.detect, hmanifest]
    rfl
  have hlookups : (Catalog.lookups (toolProject ignored) .unknown).any toolTree.isTooLong =
      false := by
    have hnames : (Catalog.lookups (toolProject []) .unknown).any toolTree.isTooLong = false := by
      decide +kernel
    exact hnames
  have hpages : (toolProject ignored).pages .unknown = .ok [] := rfl
  have hbuild : Catalog.build (toolProject ignored) (.inOrder 1) .unknown .unknown =
      .ok (toolCatalog ignored) := by
    rw [Catalog.build, hpages]
    rfl
  have htable := AliasTable.ofProject_of_missing fun name hname =>
    hmissing name (mem_cons_of_mem _ hname)
  have hmiddleware : (toolCatalog ignored).middleware = none := rfl
  have hlinked (table : AliasTable) : (toolCatalog ignored).link table =
      .ok ((toolCatalog ignored).linkedFrom (toolCatalog ignored) table none) :=
    (Catalog.link_eq_ok_iff _ _ _).mpr
      ⟨none, (linkedMiddleware_eq_ok_iff _ _).mpr (Or.inl ⟨hmiddleware, rfl⟩), rfl⟩
  refine ⟨_, scan_of_steps rfl rfl resolve_toolRoot hcheck rfl htable hdetect hlookups hbuild
    (hlinked _), ?_⟩
  have hpaths := SourceKind.filePaths_link .utility (hlinked (.ofConfig toolRoot none))
  change toolFile.toString ∈ SourceKind.utility.filePaths _
  exact hpaths ▸ toolFile_mem_filePaths ignored

/-- The names that lead to the utility. -/
theorem leadsTo_toolFile : (toolProject ignored).LeadsTo ["utils", "a.ts"] toolFile.toString where
  ne_nil := by simp
  slashFree := by
    simp only [SlashFree]
    decide
  text := rfl

/-- With old files ignored, the utility alone is found. -/
theorem scan_passes_over_ignored_toolTree : toolTree.PlainNames ∧
    ∃ c, scan toolTree toolRoot { schedule := .inOrder 1, ignored := ["old"] } = .ok c ∧
      toolFile.toString ∈ SourceKind.utility.filePaths c ∧
      (toolProject ["old"]).Avoids toolFile.toString ∧
      "/utils/old/b.ts" ∉ SourceKind.utility.filePaths c := by
  obtain ⟨c, hscan, hmem⟩ := exists_scan_toolTree ["old"]
  have hconventional : ∀ directory ∈ SourceKind.utility.directories,
      ∀ name ∈ (Path.ofString directory).names, name ∉ ["old"] := by decide +kernel
  have hfound := scan_passes_over_ignored toolTree plainNames_toolTree toolRoot _ c hscan .utility
  rw [resolve_toolRoot] at hfound
  refine ⟨plainNames_toolTree, c, hscan, hmem, ?_, ?_⟩
  · obtain ⟨directory, hdirectory, names, -, -, -, havoids⟩ := hfound _ hmem
    exact havoids.mpr (hconventional directory hdirectory)
  · intro hold
    obtain ⟨directory, hdirectory, names, hne, hleads, hfree, -⟩ := hfound _ hold
    have hway : (toolProject ["old"]).LeadsTo ["utils", "old", "b.ts"] "/utils/old/b.ts" :=
      ⟨by simp, by simp only [SlashFree]; decide, rfl⟩
    have hmem : "old" ∈ (Path.ofString directory).names ++ names.dropLast := by
      rw [← List.dropLast_append_of_ne_nil hne, hleads.unique hway]
      decide
    rcases List.mem_append.mp hmem with hmem | hmem
    · exact hconventional directory hdirectory "old" hmem (List.mem_singleton.mpr rfl)
    · exact hfree "old" hmem (List.mem_append_right _ (List.mem_singleton.mpr rfl))

/-- With their directory ignored, utilities are still found. -/
theorem scan_enters_ignored_toolTree :
    ∃ c, scan toolTree toolRoot { schedule := .inOrder 1, ignored := ["utils"] } = .ok c ∧
      toolFile.toString ∈ SourceKind.utility.filePaths c ∧
      ¬ (toolProject ["utils"]).Avoids toolFile.toString := by
  obtain ⟨c, hscan, hmem⟩ := exists_scan_toolTree ["utils"]
  refine ⟨c, hscan, hmem, ?_⟩
  rw [(leadsTo_toolFile ["utils"]).avoids_iff]
  decide

end

end SiteAtlas
