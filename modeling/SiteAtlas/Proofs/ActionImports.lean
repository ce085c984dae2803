import SiteAtlas.Proofs.ActionTails
import SiteAtlas.Proofs.IgnoredDirectories

/-!
# Imports that lead to server actions

Whether an import means a file of server actions is read off its text. That agrees with looking for
the file on relative imports, unless a source suffix is completed by another. It agrees on aliased
imports spelled like the path, if something is left to complete: one that gives the suffix finds the
file and is not recognised.
-/

namespace SiteAtlas

open List AliasTable PathText

variable {tree : Tree}

/-- The path of an action file ends in its relative path. -/
theorem Classify.filePath_eq_beginning {p : Project} {facts : FactTable} {file : Path}
    (hfile : file ∈ Candidates.all p) {a : ServerActionFile}
    (ha : serverActions? facts p.root file = some a) :
    a.filePath.toList = p.root.beginning ++ a.relativePath.toList := by
  obtain ⟨names, hne, -, rfl⟩ := p.tree.suffix_of_mem_sourceFiles p.root _ file hfile
  rw [filePath_serverActions facts _ _ a ha, relativePath_serverActions facts _ _ a ha,
    Path.below?_append, p.root.toList_toString_below names hne]
  rfl

/-- The path of an action file ends in a stem and a suffix. -/
theorem Classify.lastName_relativePath {p : Project} {facts : FactTable} {file : Path}
    (hfile : file ∈ Candidates.all p) (hfree : SlashFree file.names) {a : ServerActionFile}
    (ha : serverActions? facts p.root file = some a) :
    ∃ extension ∈ Tree.sourceSuffixes, file.stem.toList ≠ [] ∧
      lastName a.relativePath.toList = file.stem.toList ++ extension.toList := by
  obtain ⟨names, hne, hsuffix, rfl⟩ := p.tree.suffix_of_mem_sourceFiles p.root _ file hfile
  obtain ⟨front, last, rfl⟩ := (eq_nil_or_concat' names).resolve_left hne
  rw [getLast?_concat, Option.getD_some] at hsuffix
  have hname : Path.name { p.root with names := p.root.names ++ (front ++ [last]) } = last := by
    simp [Path.name]
  have hlast : last.toList = (splitSuffix last.toList).1 ++ (suffixOf last).toList := by
    rw [suffixOf, String.toList_ofList, splitSuffix_append]
  have hpath : ∃ above, Above above ∧ a.relativePath.toList = above ++ last.toList := by
    rw [relativePath_serverActions facts _ _ a ha, Path.below?_append, Option.getD_some]
    by_cases hfront : front = []
    · exact ⟨[], .inl rfl, by simp [hfront, Text.joinStrings]⟩
    · rw [Text.toList_joinStrings_append _ _ hfront (by simp)]
      exact ⟨(Text.joinStrings "/" front).toList ++ ['/'], .inr ⟨_, rfl⟩,
        by simp [Text.joinStrings]⟩
  obtain ⟨above, habove, hpath⟩ := hpath
  refine ⟨suffixOf last, hsuffix, ?_, ?_⟩
  · rw [Path.stem, hname, stemOf, String.toList_ofList]
    refine stem_ne_nil_of_suffix fun hnone => ?_
    rw [suffixOf, hnone] at hsuffix
    exact absurd hsuffix (by decide)
  · rw [hpath, lastName_above habove, lastName_of_not_mem, Path.stem, hname, stemOf,
      String.toList_ofList, ← hlast]
    exact hfree last (by simp)

namespace AliasTable

variable {table : AliasTable} {specifier : List Char}

/-- How an alias leads to a file: rest, directory and what completes it. -/
structure Finds (table : AliasTable) (specifier : List Char) (file : Path) (al : Alias)
    (dir : String) (rest : List Char) (suffix : String) : Prop where
  mem_aliases : al ∈ table.aliases
  remainder : remainder? al specifier = some rest
  mem_directories : dir ∈ al.target.directories
  mem_suffixes : suffix ∈ probeSuffixes
  file_eq : file = Path.ofString (String.ofList
    ((if rest.isEmpty then dir.toList else joinNormal dir.toList rest) ++
      suffix.toList))

/-- The first open key that a specifier begins with. -/
def firstKey? (table : AliasTable) (specifier : List Char) : Option String :=
  table.openKeys.find? fun key => key.toList.isPrefixOf specifier

/-- A specifier is spelled like the path it leads to: an alias leaves a row of names, the directory
lies in the project, and the first open key it begins with is the alias's or ends between two names.
-/
structure IsStraight (table : AliasTable) (root : Path) (specifier : List Char) (al : Alias)
    (dir : String) (rest : List Char) : Prop where
  spelled : IsSpelled rest
  slash : rootOf dir.toList = .slash
  inside : root.names.map String.toList <+: resolved dir.toList
  firstKey : ∀ key ∈ table.firstKey? specifier, key = al.key ∨ key.toList.getLast? = some '/'

/-- A file found at a place has the completed path. -/
theorem exists_suffix_of_probe [Host] {base : List Char} {file : Path}
    (h : probe tree base = .ok (some file)) :
    ∃ suffix ∈ probeSuffixes, file = Path.ofString (String.ofList (base ++ suffix.toList)) := by
  have hfound := ends_findM? tree.checkFile
    (probeSuffixes.map fun suffix => Path.ofString (String.ofList (base ++ suffix.toList)))
  unfold probe at h
  rw [h] at hfound
  obtain ⟨suffix, hsuffix, heq⟩ := mem_map.mp (hfound.of_ok.1 file rfl).1
  exact ⟨suffix, hsuffix, heq.symm⟩

/-- An aliased specifier's file is found by an alias. -/
theorem exists_finds_of_resolve [Host] {importer file : Path}
    (hrelative : isRelative specifier = false)
    (h : table.resolve tree specifier importer = .ok (some file)) :
    ∃ al dir rest suffix, table.Finds specifier file al dir rest suffix := by
  rw [resolve, hrelative, if_neg Bool.false_ne_true] at h
  have hfound := ends_findSomeM? (probe tree) (fun _ found => found)
    (table.aliases.flatMap (aliasPlaces · specifier))
  simp only [bind_pure] at hfound
  rw [h] at hfound
  obtain ⟨base, hbase, _, hprobe, rfl⟩ := hfound.of_ok.1 file rfl
  obtain ⟨al, hal, hplaces⟩ := mem_flatMap.mp hbase
  obtain ⟨suffix, hsuffix, hfile⟩ := exists_suffix_of_probe hprobe
  unfold aliasPlaces at hplaces
  split at hplaces
  next => cases hplaces
  next rest hrest =>
    obtain ⟨dir, hdir, rfl⟩ := mem_map.mp hplaces
    exact ⟨al, dir, rest, suffix, hal, hrest, hdir, hsuffix, hfile⟩

/-- A project's table is made from the configuration found. -/
theorem exists_ofConfig_of_ofProject [Host] {root : Path} (h : ofProject tree root = .ok table) :
    ∃ found, config tree root = .ok found ∧ ofConfig root found = table := by
  unfold ofProject at h
  cases hconfig : config tree root with
  | error e => simp [hconfig, Except.map] at h
  | ok found => exact ⟨found, rfl, by simpa [hconfig, Except.map] using h⟩

/-- The aliases of a configuration come longest key first. -/
theorem pairwise_ofConfig [Host] (root : Path) (found : Option (Path × Data.Value)) :
    (ofConfig root found).aliases.Pairwise fun a b => b.key.length ≤ a.key.length :=
  pairwise_mergeSort_of_key _ (fun al : Alias => OrderDual.toDual al.key.length)
    (fun _ _ => decide_eq_true_iff) _

/-- The aliases of a project come longest key first. -/
theorem pairwise_aliases [Host] {root : Path} (h : ofProject tree root = .ok table) :
    table.aliases.Pairwise fun a b => b.key.length ≤ a.key.length := by
  obtain ⟨found, -, rfl⟩ := exists_ofConfig_of_ofProject h
  exact pairwise_ofConfig root found

/-- Without a configuration there are the default aliases. -/
theorem aliases_ofConfig_none [Host] (root : Path) : (ofConfig root none).aliases =
      defaultKeys.map fun key => ⟨key, defaultTarget root.toString⟩ := by
  unfold ofConfig
  dsimp only
  -- The default keys have one length, so sorting leaves them as they are.
  refine (congrArg (List.mergeSort · _) ?_).trans (mergeSort_of_pairwise ?_)
  · rfl
  · have hlength : "~/".length ≤ "@/".length := by decide
    simpa [defaultKeys] using hlength

section FirstKey

variable {al : Alias} (hal : al ∈ table.aliases) (hopen : al.target.exact = false)
include hal hopen

/-- The key of an open alias is an open key. -/
theorem mem_openKeys (hne : al.key ≠ "") : al.key ∈ table.openKeys := by
  refine mem_map.mpr ⟨al, mem_filter.mpr ⟨hal, ?_⟩, rfl⟩
  simp [hopen, hne]

variable (hbegins : al.key.toList <+: specifier)
include hbegins

/-- Without an open key, a specifier is left whole. -/
theorem key_eq_empty_of_firstKey?_eq_none (h : table.firstKey? specifier = none) : al.key = "" := by
  by_contra hne
  have hnone := find?_eq_none.mp h al.key (mem_openKeys hal hopen hne)
  exact hnone (List.isPrefixOf_iff_prefix.mpr hbegins)

/-- The first key found begins the specifier. -/
theorem prefix_of_firstKey?
    (hsorted : table.aliases.Pairwise fun a b => b.key.length ≤ a.key.length) {key : String}
    (h : table.firstKey? specifier = some key) : al.key.toList <+: key.toList := by
  obtain ⟨hkey, before, after, hkeys, hbefore⟩ := find?_eq_some_iff_append.mp h
  have hkey := List.isPrefixOf_iff_prefix.mp hkey
  by_cases hne : al.key = ""
  · simp [hne]
  have hmem := mem_openKeys hal hopen hne
  rw [hkeys] at hmem
  rcases mem_append.mp hmem with hmem | hmem
  · have hnot := hbefore al.key hmem
    rw [List.isPrefixOf_iff_prefix.mpr hbegins] at hnot
    cases hnot
  · rcases mem_cons.mp hmem with hsame | hmem
    · rw [hsame]
    · have hpairwise : table.openKeys.Pairwise fun a b => b.length ≤ a.length :=
        pairwise_map.mpr (hsorted.filter _)
      rw [hkeys] at hpairwise
      have hle := (pairwise_cons.mp (pairwise_append.mp hpairwise).2.1).1 al.key hmem
      exact prefix_of_prefix_length_le hbegins hkey
        (by rwa [String.length_toList, String.length_toList])

end FirstKey

/-- What an alias leaves stands after its key. -/
theorem Finds.eq_append {file : Path} {al : Alias} {dir : String} {rest : List Char}
    {suffix : String} (h : table.Finds specifier file al dir rest suffix) (hne : rest ≠ []) :
    al.target.exact = false ∧ specifier = al.key.toList ++ rest := by
  have hremainder := h.remainder
  unfold remainder? at hremainder
  split at hremainder
  next hexact =>
    split at hremainder
    · exact absurd (Option.some.inj hremainder).symm hne
    · cases hremainder
  next hopen =>
    split at hremainder
    next hbegins =>
      obtain ⟨more, rfl⟩ := List.isPrefixOf_iff_prefix.mp hbegins
      rw [← String.length_toList, drop_left] at hremainder
      exact ⟨by simpa using hopen, by rw [Option.some.inj hremainder]⟩
    next => cases hremainder

/-- What is compared follows directories in what is left. -/
theorem IsStraight.exists_comparedTail {root file : Path} {al : Alias} {dir : String}
    {rest : List Char} {suffix key : String}
    (hstraight : table.IsStraight root specifier al dir rest)
    (hfinds : table.Finds specifier file al dir rest suffix)
    (hsorted : table.aliases.Pairwise fun a b => b.key.length ≤ a.key.length)
    (hkey : table.firstKey? specifier = some key) :
    ∃ above, Above above ∧ rest = above ++ comparedTail table specifier := by
  obtain ⟨hopen, hspecifier⟩ := hfinds.eq_append hstraight.spelled.ne_nil
  obtain ⟨above, habove⟩ :=
    prefix_of_firstKey? hfinds.mem_aliases hopen ⟨rest, hspecifier.symm⟩ hsorted hkey
  have hfirst : table.openKeys.find? (fun key => key.toList.isPrefixOf specifier) = some key := hkey
  have hbegins := find?_some hfirst
  obtain ⟨tail, htail⟩ := List.isPrefixOf_iff_prefix.mp hbegins
  have hcompared : comparedTail table specifier = tail := by
    rw [comparedTail, hfirst]
    dsimp only
    rw [← htail, ← String.length_toList, drop_left]
  refine ⟨above, ?_, ?_⟩
  · rcases hstraight.firstKey key hkey with rfl | hslash
    · exact .inl (by simpa using habove)
    · rcases eq_nil_or_concat' above with rfl | ⟨front, last, rfl⟩
      · exact .inl rfl
      · rw [← habove, ← append_assoc, getLast?_concat] at hslash
        exact .inr ⟨front, by rw [Option.some.inj hslash]⟩
  · refine (append_right_inj al.key.toList).mp ?_
    rw [hcompared, ← hspecifier, ← htail, ← habove, append_assoc]

section Straight

variable {p : Project} (hroot : p.root.root = .slash) {facts : FactTable} {file : Path}
  (hfile : file ∈ Candidates.all p) {a : ServerActionFile}
  (ha : Classify.serverActions? facts p.root file = some a) {al : Alias} {dir : String}
  {rest : List Char} {suffix : String}
  (hstraight : table.IsStraight p.root specifier al dir rest)
  (hfinds : table.Finds specifier file al dir rest suffix)
include hroot hfile ha hstraight hfinds

/-- A straight specifier's path ends in what is left. -/
theorem exists_relativePath :
    ∃ above, Above above ∧ a.relativePath.toList = above ++ rest ++ suffix.toList := by
  have hspelled := hstraight.spelled
  have hparts : parts rest ≠ [] := by
    rw [hspelled.parts_eq]
    exact Text.splitOn_ne_nil '/' rest
  have hjoin : Text.join ['/'] (parts rest) = rest := by
    rw [hspelled.parts_eq, Text.join_splitOn]
  obtain ⟨inner, hinner⟩ := hstraight.inside
  have hnames : ∀ name ∈ resolved dir.toList ++ parts rest, IsName name :=
    forall_mem_append.mpr ⟨fun name => isName_of_mem_resolved, fun name => isName_of_mem_parts⟩
  -- The place that is completed to the file, and with it the text of the file.
  have hplace : joinNormal dir.toList rest = absolute (resolved dir.toList ++ parts rest) :=
    normalize_join hstraight.slash hspelled.head_ne hspelled.noDots
  have hfound := hfinds.file_eq
  rw [if_neg (by simpa using hspelled.ne_nil), hplace] at hfound
  have hslash : file.root = .slash := by
    obtain ⟨-, -, -, rfl⟩ := p.tree.suffix_of_mem_sourceFiles p.root _ file hfile
    exact hroot
  have htext : file.toString.toList =
      absolute (resolved dir.toList ++ parts rest) ++ suffix.toList := by
    rw [hfound]
    refine toString_ofString_completed hnames hfinds.mem_suffixes ?_
    rw [← root_ofString, ← hfound, hslash]
  -- Both texts begin with the root of the project.
  have hrelative : a.relativePath.toList =
      Text.join ['/'] (inner ++ parts rest) ++ suffix.toList := by
    refine (append_right_inj p.root.beginning).mp ?_
    rw [← Classify.filePath_eq_beginning hfile ha, Classify.filePath_serverActions facts _ _ a ha,
      htext, ← hinner, append_assoc, absolute_below p.root hroot (by simp [hparts]),
      append_assoc]
  rw [hrelative]
  by_cases hnone : inner = []
  · exact ⟨[], .inl rfl, by rw [hnone, nil_append, hjoin, nil_append]⟩
  · exact ⟨_, .inr ⟨_, rfl⟩, by rw [Text.join_append _ hnone hparts, hjoin]⟩

/-- The path ends in a stem and a suffix, and the specifier if whole. -/
theorem exists_lastName :
    ∃ above, Above above ∧ a.relativePath.toList = above ++ rest ++ suffix.toList ∧
      (suffix = "" → ∃ extension ∈ Tree.sourceSuffixes, file.stem.toList ≠ [] ∧
        lastName rest = file.stem.toList ++ extension.toList) := by
  obtain ⟨above, habove, hpath⟩ := exists_relativePath hroot hfile ha hstraight hfinds
  refine ⟨above, habove, hpath, ?_⟩
  rintro rfl
  have hfree : SlashFree file.names := hfinds.file_eq ▸ Path.slashFree_ofString _
  obtain ⟨extension, hextension, hstem, hlast⟩ := Classify.lastName_relativePath hfile hfree ha
  rw [hpath, String.toList_empty, append_nil, lastName_above habove] at hlast
  exact ⟨extension, hextension, hstem, hlast⟩

/-- After an open key, a specifier ends the path if completed. -/
theorem tailMatches_of_firstKey?
    (hsorted : table.aliases.Pairwise fun a b => b.key.length ≤ a.key.length)
    (hkey : table.firstKey? specifier ≠ none) :
    (suffix ≠ "" → tailMatches a.relativePath.toList (comparedTail table specifier) = true) ∧
    (suffix = "" → file.stem ≠ "index" →
      ¬ tailMatches a.relativePath.toList (comparedTail table specifier) = true) := by
  obtain ⟨key, hkey⟩ := Option.ne_none_iff_exists'.mp hkey
  obtain ⟨above, habove, hpath, hlast⟩ := exists_lastName hroot hfile ha hstraight hfinds
  obtain ⟨inner, hinner, hrest⟩ := hstraight.exists_comparedTail hfinds hsorted hkey
  have hspelled : IsSpelled (comparedTail table specifier) :=
    IsSpelled.of_above (hrest ▸ hstraight.spelled) hinner
  have habove := habove.append hinner
  rw [hpath, hrest, ← append_assoc]
  refine ⟨fun hne => tailMatches_completed habove hspelled hfinds.mem_suffixes hne, ?_⟩
  intro hnone hindex
  obtain ⟨extension, hextension, -, hname⟩ := hlast hnone
  rw [hrest, lastName_above hinner] at hname
  rw [hnone, String.toList_empty, append_nil]
  exact tailMatches_spelled_out habove hspelled hextension hname
    fun heq => hindex (String.toList_injective heq)

/-- Without an open key, a specifier ends the path unless completed twice. -/
theorem tailMatches_of_firstKey?_eq_none (hkey : table.firstKey? specifier = none)
    (h : suffix = "" ∨ ¬ EndsInSuffix specifier) :
    tailMatches a.relativePath.toList (comparedTail table specifier) = true := by
  obtain ⟨above, habove, hpath, hlast⟩ := exists_lastName hroot hfile ha hstraight hfinds
  obtain ⟨hopen, hspecifier⟩ := hfinds.eq_append hstraight.spelled.ne_nil
  have hempty := key_eq_empty_of_firstKey?_eq_none hfinds.mem_aliases hopen
    ⟨rest, hspecifier.symm⟩ hkey
  obtain rfl : specifier = rest := by simpa [hempty] using hspecifier
  have hcompared : comparedTail table specifier = withoutSuffix specifier := by
    unfold firstKey? at hkey
    rw [comparedTail, hkey]
  rw [hcompared, hpath]
  by_cases hsuffix : suffix = ""
  · obtain ⟨extension, hextension, hstem, hname⟩ := hlast hsuffix
    rw [hsuffix, String.toList_empty, append_nil]
    exact tailMatches_withoutSuffix habove hstraight.spelled hextension hname hstem
  · rw [withoutSuffix_of_not_endsInSuffix (h.resolve_left hsuffix),
      slashed_of_not_mem hstraight.spelled.noBackslash]
    exact tailMatches_completed habove hstraight.spelled hfinds.mem_suffixes hsuffix

end Straight

/-- A relative path leads to its file below the root. -/
theorem exists_filePath_of_relative [Host] {p : Project} (hroot : p.root.root = .slash)
    {facts : FactTable} {file : Path} (hfile : file ∈ Candidates.all p) {a : ServerActionFile}
    (ha : Classify.serverActions? facts p.root file = some a) {importer : String}
    (himporter : rootOf importer.toList = .slash) (hrelative : isRelative specifier = true)
    (h : table.resolve p.tree specifier (.ofString importer) = .ok (some file)) :
    ∃ suffix ∈ probeSuffixes,
      a.filePath.toList = relativeTarget specifier (.ofString importer) ++ suffix.toList := by
  rw [resolve, if_pos hrelative] at h
  obtain ⟨suffix, hsuffix, hfound⟩ := exists_suffix_of_probe h
  have hparent : rootOf (Path.ofString importer).parent.toString.toList = .slash := by
    have hpath : (Path.ofString importer).parent =
        ⟨.slash, (Path.ofString importer).names.dropLast⟩ :=
      congrArg (Path.mk · _) himporter
    rw [hpath, toList_toString]
    refine rootOf_absolute fun name hname => ?_
    obtain ⟨text, htext, rfl⟩ := mem_map.mp hname
    obtain ⟨part, hpart, rfl⟩ := mem_map.mp (mem_of_mem_dropLast htext)
    rw [String.toList_ofList]
    exact isName_of_mem_parts hpart
  have hhead : specifier.head? ≠ some '/' := by
    obtain ⟨rest, rfl⟩ := List.isPrefixOf_iff_prefix.mp hrelative
    simp
  have htarget : relativeTarget specifier (.ofString importer) = absolute (resolved
      (PathText.join (Path.ofString importer).parent.toString.toList specifier)) :=
    normalize_of_slash (rootOf_join hparent hhead)
  have hslash : file.root = .slash := by
    obtain ⟨-, -, -, rfl⟩ := p.tree.suffix_of_mem_sourceFiles p.root _ file hfile
    exact hroot
  refine ⟨suffix, hsuffix, ?_⟩
  rw [Classify.filePath_serverActions facts _ _ a ha, hfound, htarget]
  refine toString_ofString_completed (fun name => isName_of_mem_resolved) hsuffix ?_
  rw [← root_ofString, ← htarget, ← hfound, hslash]

end AliasTable

/-- When an import of an action file is recognised. -/
structure Recognises (root : Path) (table : AliasTable) (specifier : List Char)
    (importer file : Path) (a : ServerActionFile) : Prop where
  /-- A relative import is missed only with two suffixes. -/
  relative : isRelative specifier = true → ∃ suffix ∈ probeSuffixes,
    a.filePath.toList = relativeTarget specifier importer ++ suffix.toList ∧
    (matchesAction table specifier a importer = true ↔
      suffix = "" ∨ ¬ EndsInSuffix (relativeTarget specifier importer))
  /-- An aliased import spelled like the path of the file is recognised if something completes it,
  and missed if its suffix is spelled out, unless no open key applies. -/
  aliased : isRelative specifier = false → ∃ al dir rest suffix,
    table.Finds specifier file al dir rest suffix ∧
    (table.IsStraight root specifier al dir rest → (table.firstKey? specifier ≠ none →
        (suffix ≠ "" → matchesAction table specifier a importer = true) ∧
        (suffix = "" → file.stem ≠ "index" → ¬ matchesAction table specifier a importer = true)) ∧
      (table.firstKey? specifier = none → suffix = "" ∨ ¬ EndsInSuffix specifier →
        matchesAction table specifier a importer = true))

/-- Imports of actions are recognised as far as their spelling allows. -/
theorem resolved_import_recognised [Host] (p : Project) (hroot : p.root.root = .slash)
    (table : AliasTable)
    (htable : AliasTable.ofProject p.tree p.root = .ok table) (facts : FactTable) (file : Path)
    (hfile : file ∈ Candidates.all p) (a : ServerActionFile)
    (ha : Classify.serverActions? facts p.root file = some a) (importer : String)
    (himporter : rootOf importer.toList = .slash) (specifier : List Char)
    (hresolve : table.resolve p.tree specifier (.ofString importer) = .ok (some file)) :
    Recognises p.root table specifier (.ofString importer) file a := by
  constructor
  · intro hrelative
    obtain ⟨suffix, hsuffix, hpath⟩ :=
      exists_filePath_of_relative hroot hfile ha himporter hrelative hresolve
    refine ⟨suffix, hsuffix, hpath, ?_⟩
    rw [← withoutSuffix_completed_iff _ hsuffix, ← hpath, matchesAction, if_pos hrelative]
    simp only [Bool.or_eq_true, beq_iff_eq]
  · intro hrelative
    obtain ⟨al, directory, rest, suffix, hfinds⟩ := exists_finds_of_resolve hrelative hresolve
    refine ⟨al, directory, rest, suffix, hfinds, fun hstraight => ?_⟩
    have hmatches : matchesAction table specifier a (.ofString importer) =
        tailMatches a.relativePath.toList (comparedTail table specifier) := by
      rw [matchesAction, if_neg (by simp [hrelative])]
    rw [hmatches]
    exact ⟨tailMatches_of_firstKey? hroot hfile ha hstraight hfinds (pairwise_aliases htable),
      tailMatches_of_firstKey?_eq_none hroot hfile ha hstraight hfinds⟩

/-- A project with one file of server actions. -/
def formProject : Project where
  tree :=
    { files := [(["src", "actions.ts"],
        "'use server'\nexport async function save() \x7b\x7d".toUTF8.toList)]
      directories := [] }
  root := ⟨.slash, []⟩
  ignored := []

/-- The file of server actions. -/
def formFile : Path := ⟨.slash, ["src", "actions.ts"]⟩

/-- What the file holds. -/
def formActions : ServerActionFile where
  filePath := "/src/actions.ts"
  relativePath := "src/actions.ts"
  exportedFunctions := ["save"]

/-- The facts of the project's form. -/
def formFacts : FactTable :=
  FactTable.load formProject.tree (.inOrder 1) [] [formFile]

/-- The project has the aliases that are always there. -/
def formTable : AliasTable where
  configFile := none
  aliases := [⟨"@/", ⟨false, ["/src", "/"]⟩⟩, ⟨"~/", ⟨false, ["/src", "/"]⟩⟩]

section

attribute [local instance] Host.usual

/-- The form's project has the usual aliases only. -/
theorem ofProject_formProject :
    AliasTable.ofProject formProject.tree formProject.root = .ok formTable := by
  have hmissing : ∀ name ∈ AliasTable.configFiles,
      formProject.tree.checkFile (formProject.root / name) = .ok false := by
    decide +kernel
  have haliases : (AliasTable.ofConfig formProject.root none).aliases = formTable.aliases := by
    rw [AliasTable.aliases_ofConfig_none]
    decide +kernel
  have hdefaults : AliasTable.ofConfig formProject.root none = formTable :=
    congrArg (AliasTable.mk none) haliases
  rw [AliasTable.ofProject_of_missing hmissing, hdefaults]

/-- The form's file is a candidate. -/
theorem formFile_mem_candidates : formFile ∈ Candidates.all formProject := by
  have hfiles : Candidates.all formProject = [formFile] := by decide +kernel
  simp [hfiles]

/-- The form's file has server actions. -/
theorem serverActions_formFile :
    Classify.serverActions? formFacts formProject.root formFile = some formActions := by
  have htext : formProject.tree.readText? formFile =
      some "'use server'\nexport async function save() \x7b\x7d".toList := by decide +kernel
  have hfact : formFacts.fact? formFile =
      some (.ofContent "'use server'\nexport async function save() \x7b\x7d".toList) := by
    rw [formFacts, FactTable.fact?_load _ _ (fun n => List.Perm.refl _), if_pos (by simp),
      FactTable.extract?, htext]
    rfl
  rw [Classify.serverActions?, hfact]
  decide +kernel

/-- The import without a suffix leads to the file. -/
theorem resolve_formProject :
    formTable.resolve formProject.tree "@/actions".toList (.ofString "/src/Form.tsx") =
      .ok (some formFile) := by
  decide +kernel

/-- The import with a suffix leads to the file. -/
theorem resolve_suffix_formProject :
    formTable.resolve formProject.tree "@/actions.ts".toList (.ofString "/src/Form.tsx") =
      .ok (some formFile) := by
  decide +kernel

/-- Without a suffix, the import is recognised. -/
theorem resolved_import_recognised_formProject :
    formTable.resolve formProject.tree "@/actions".toList (.ofString "/src/Form.tsx") =
      .ok (some formFile) ∧
    Recognises formProject.root formTable "@/actions".toList (.ofString "/src/Form.tsx") formFile
      formActions :=
  ⟨resolve_formProject, resolved_import_recognised formProject rfl formTable ofProject_formProject
    formFacts formFile formFile_mem_candidates formActions serverActions_formFile "/src/Form.tsx"
    (by decide +kernel) _ resolve_formProject⟩

/-- With its suffix, the import is not recognised. -/
theorem resolved_import_missed_formProject :
    formTable.resolve formProject.tree "@/actions.ts".toList (.ofString "/src/Form.tsx") =
      .ok (some formFile) ∧
    ¬ matchesAction formTable "@/actions.ts".toList formActions (.ofString "/src/Form.tsx") =
      true :=
  ⟨resolve_suffix_formProject, by decide +kernel⟩

end

end SiteAtlas
