import SiteAtlas.Proofs.ListedFiles
import SiteAtlas.Proofs.Sorting

/-!
# Trees that look alike

No path depends on the order in which a tree lists its files: a listing is sorted, and no two rows
of names count as equal. So trees with the same files and directories give the same answer to every
question of a scan.
-/

namespace SiteAtlas

open List

/-- Rows of names are ordered name by name. -/
theorem namesLE_iff (a b : List String) : namesLE a b = true ↔ a ≤ b := by
  rw [← not_lt]
  induction a generalizing b with
  | nil => simp [namesLE]
  | cons first rest ih =>
    cases b with
    | nil => simp [namesLE]
    | cons other others =>
      rw [namesLE, cons_lt_cons_iff, not_or, not_and, not_lt]
      rcases lt_trichotomy first other with hlt | rfl | hgt
      · simp [hlt, hlt.le, hlt.ne']
      · simp [ih]
      · simp [hgt.not_gt, hgt.not_ge, hgt.ne']

namespace Tree

variable {t u : Tree}

/-- Names of all files below a place, as they are met. -/
def metBelow (t : Tree) (place : Place) : List (List String) :=
  ((t.files.map (·.1)).filter (isBelow · place)).map (·.drop place.length)

/-- However files are met, sorting gives the listing. -/
theorem mergeSort_of_metBelow (t : Tree) (place : Place) (met : List (List String))
    (h : met.Perm (t.metBelow place)) : met.mergeSort namesLE = t.namesBelow place :=
  mergeSort_eq_of_perm namesLE id namesLE_iff Function.injective_id met (t.metBelow place) h

/-- No place has two files. -/
def Distinct (t : Tree) : Prop :=
  (t.files.map (·.1)).Nodup

/-- Trees with the same files, contents and directories. -/
structure Same (t u : Tree) : Prop where
  files : ∀ place, t.fileAt? place = u.fileAt? place
  directories : ∀ place, t.hasDirectoryAt place = u.hasDirectoryAt place

/-- A place has one content. -/
theorem fileAt?_eq_some_iff (h : t.Distinct) (place : Place) (bytes : List UInt8) :
    t.fileAt? place = some bytes ↔ (place, bytes) ∈ t.files := by
  refine ⟨mem_files_of_fileAt?, fun hmem => ?_⟩
  cases hfound : t.fileAt? place with
  | none =>
    have hother := lookup_eq_none_iff.mp hfound (place, bytes) hmem
    simp at hother
  | some found =>
    exact congrArg some
      (Prod.mk.inj (inj_on_of_nodup_map h (mem_files_of_fileAt? hfound) hmem rfl)).2

/-- Same trees list the same files. -/
theorem Same.perm (h : t.Same u) (ht : t.Distinct) (hu : u.Distinct) : t.files.Perm u.files := by
  refine (perm_ext_iff_of_nodup ht.of_map hu.of_map).mpr ?_
  rintro ⟨place, bytes⟩
  rw [← fileAt?_eq_some_iff ht, ← fileAt?_eq_some_iff hu, h.files]

/-- Another order of files and directories gives the same tree. -/
theorem same_of_perm (ht : t.Distinct) (hfiles : t.files.Perm u.files)
    (hdirectories : t.directories.Perm u.directories) : u.Distinct ∧ t.Same u := by
  have hplaces : (t.files.map (·.1)).Perm (u.files.map (·.1)) := hfiles.map _
  have hu : u.Distinct := hplaces.nodup_iff.mp ht
  refine ⟨hu, fun place => ?_, fun place => ?_⟩
  · apply Option.ext
    intro bytes
    rw [fileAt?_eq_some_iff ht, fileAt?_eq_some_iff hu, hfiles.mem_iff]
  · rw [hasDirectoryAt, hfiles.any_eq, hdirectories.any_eq, hasDirectoryAt]

/-- The beginnings of a row are what can be taken from it. -/
theorem mem_entries_iff_starts (t : Tree) (entry : Place) :
    entry ∈ t.entries ↔ ∃ place ∈ t.files.map (·.1) ++ t.directories, entry <+: place := by
  rw [entries, mem_flatMap]
  refine exists_congr fun place => and_congr_right fun _ => ?_
  rw [mem_map]
  constructor
  · rintro ⟨n, -, rfl⟩
    exact take_prefix n place
  · intro h
    have hlength : entry.length < place.length + 1 := Nat.lt_succ_of_le h.length_le
    exact ⟨entry.length, mem_range.mpr hlength, (prefix_iff_eq_take.mp h).symm⟩

/-- Places but the outermost are those of directories and files. -/
theorem mem_entries_iff (t : Tree) {entry : Place} (hne : entry ≠ []) :
    entry ∈ t.entries ↔ t.hasDirectoryAt entry = true ∨ t.hasFileAt entry = true := by
  have hempty : entry.isEmpty = false := isEmpty_eq_false_iff.mpr hne
  simp only [mem_entries_iff_starts, hasFileAt_iff, hasDirectoryAt, hempty, Bool.false_or,
    Bool.or_eq_true, any_eq_true, isPrefixOf_iff_prefix, isBelow, Bool.and_eq_true,
    decide_eq_true_eq, mem_append]
  constructor
  · rintro ⟨place, hplace | hplace, hstart⟩
    · obtain ⟨file, hmem, rfl⟩ := mem_map.mp hplace
      rcases Nat.lt_or_eq_of_le hstart.length_le with hlt | heq
      · exact .inl (.inr ⟨file, hmem, hstart, hlt⟩)
      · exact .inr (hstart.eq_of_length heq ▸ hplace)
    · exact .inl (.inl ⟨place, hplace, hstart⟩)
  · rintro ((⟨place, hplace, hstart⟩ | ⟨file, hmem, hstart, -⟩) | hplace)
    · exact ⟨place, .inr hplace, hstart⟩
    · exact ⟨file.1, .inl (mem_map_of_mem hmem), hstart⟩
    · exact ⟨entry, .inl hplace, prefix_rfl⟩

/-- Two trees have the same directories. -/
structure SameDirectories (t u : Tree) : Prop where
  hasDirectoryAt : t.hasDirectoryAt = u.hasDirectoryAt

namespace SameDirectories

variable (h : t.SameDirectories u)
include h

/-- The same names are followed to the same place. -/
theorem follow? : t.follow? = u.follow? := by
  funext here names
  induction names generalizing here with
  | nil => rfl
  | cons name rest ih => rw [Tree.follow?, Tree.follow?, h.hasDirectoryAt, ih]

/-- Paths lead to the same places. -/
theorem place? : t.place? = u.place? := by
  funext p
  rw [Tree.place?, Tree.place?, h.follow?]

/-- The same paths lead to directories. -/
theorem isDirectory : t.isDirectory = u.isDirectory := by
  funext p
  rw [Tree.isDirectory, Tree.isDirectory, h.place?, h.hasDirectoryAt]

/-- Long names are met alike. -/
theorem meetsLongName [Host] : t.meetsLongName = u.meetsLongName := by
  funext here names
  rw [Tree.meetsLongName, Tree.meetsLongName, h.hasDirectoryAt, h.follow?]

/-- The same paths are too long to be looked up. -/
theorem isTooLong [Host] : t.isTooLong = u.isTooLong := by
  funext p
  rw [Tree.isTooLong, Tree.isTooLong, h.meetsLongName]

/-- Looking up a directory gives the same answer. -/
theorem checkDirectory [Host] : t.checkDirectory = u.checkDirectory := by
  funext p
  rw [Tree.checkDirectory, Tree.checkDirectory, h.isTooLong, h.isDirectory]

end SameDirectories

/-- Two trees look alike: same files, directories and listings. -/
structure LooksLike (t u : Tree) : Prop extends SameDirectories t u where
  fileAt? : t.fileAt? = u.fileAt?
  namesBelow : t.namesBelow = u.namesBelow

/-- Trees with the same files and directories look alike. -/
theorem Same.looksLike (h : t.Same u) (ht : t.Distinct) (hu : u.Distinct) : t.LooksLike u where
  fileAt? := funext h.files
  hasDirectoryAt := funext h.directories
  namesBelow := by
    funext place
    apply mergeSort_of_metBelow
    exact (((h.perm ht hu).map _).filter _).map _

namespace LooksLike

variable (h : t.LooksLike u)
include h

/-- The same places hold files. -/
theorem hasFileAt : t.hasFileAt = u.hasFileAt := by
  funext place
  rw [Tree.hasFileAt, Tree.hasFileAt, h.fileAt?]

/-- The same paths lead to files. -/
theorem isFile : t.isFile = u.isFile := by
  funext p
  rw [Tree.isFile, Tree.isFile, h.place?, h.hasFileAt]

/-- Paths lead to the same texts. -/
theorem readText? : t.readText? = u.readText? := by
  funext p
  rw [Tree.readText?, Tree.readText?, read?, read?, h.place?, h.fileAt?]

/-- Looking up a file gives the same answer. -/
theorem checkFile [Host] : t.checkFile = u.checkFile := by
  funext p
  rw [Tree.checkFile, Tree.checkFile, h.isTooLong, h.isFile]

/-- The same paths are looked up for a listing. -/
theorem mem_lookedUp (dir : Path) (rule : ListingRule) (path : Path) :
    path ∈ t.lookedUp dir rule ↔ path ∈ u.lookedUp dir rule := by
  rw [lookedUp, lookedUp, h.place?]
  cases u.place? dir with
  | none => rfl
  | some place =>
    simp only [mem_map, mem_filter, Bool.and_eq_true]
    refine exists_congr fun entry => and_congr_left fun _ => ?_
    rw [h.hasDirectoryAt]
    refine and_congr_left fun hlooked => ?_
    have hne : entry ≠ [] := by
      rintro rfl
      simp [isBelow] at hlooked
    rw [mem_entries_iff t hne, mem_entries_iff u hne, h.hasDirectoryAt, h.hasFileAt]

/-- The same source files lie below a directory. -/
theorem sourceFiles : t.sourceFiles = u.sourceFiles := by
  funext dir rule
  simp only [Tree.sourceFiles, h.place?, h.hasDirectoryAt, h.namesBelow]

end LooksLike

end Tree

end SiteAtlas
