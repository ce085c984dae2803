import SiteAtlas.Tree.Listing

/-!
# Which files are listed

A path that goes down from a directory leads to its place followed by the names. So a listing holds
just the paths below that lead to files and that its rule takes in.
-/

namespace SiteAtlas.Tree

open List

variable {t : Tree} {here place : Place} {names : List String}

/-- Names are followed one row after the other. -/
theorem follow?_append (t : Tree) (here : Place) (names more : List String) :
    t.follow? here (names ++ more) = (t.follow? here names).bind (t.follow? · more) := by
  induction names generalizing here with
  | nil => rfl
  | cons name rest ih =>
    rw [cons_append, follow?, follow?]
    split
    · exact ih _
    · rfl

/-- Plain names lead to their own place. -/
theorem eq_of_follow? (hplain : ".." ∉ names) (h : t.follow? here names = some place) :
    place = here ++ names := by
  induction names generalizing here with
  | nil => simpa [follow?] using h.symm
  | cons name rest ih =>
    rw [mem_cons, not_or] at hplain
    rw [follow?] at h
    split at h
    · rw [if_neg (Ne.symm hplain.1)] at h
      rw [ih hplain.2 h, append_assoc, singleton_append]
    · cases h

/-- A file found is in the tree. -/
theorem mem_files_of_fileAt? {bytes : List UInt8} (h : t.fileAt? place = some bytes) :
    (place, bytes) ∈ t.files := by
  obtain ⟨before, after, hfiles, -⟩ := lookup_eq_some_iff.mp h
  simp [hfiles]

/-- A place has a file if one is there. -/
theorem hasFileAt_iff : t.hasFileAt place = true ↔ place ∈ t.files.map (·.1) := by
  unfold hasFileAt fileAt?
  cases hfile : t.files.lookup place with
  | none =>
    have hother := lookup_eq_none_iff.mp hfile
    simpa using fun bytes hmem => by simpa using hother (place, bytes) hmem
  | some bytes => simpa using ⟨bytes, mem_files_of_fileAt? hfile⟩

/-- There is a directory above each file. -/
theorem hasDirectoryAt_of_mem (h : here ++ names ∈ t.files.map (·.1)) (hne : names ≠ []) :
    t.hasDirectoryAt here = true := by
  obtain ⟨entry, hentry, heq⟩ := mem_map.mp h
  have hbelow : t.files.any (isBelow ·.1 here) = true :=
    any_eq_true.mpr ⟨entry, hentry, by simp [isBelow, heq, length_pos_iff, hne]⟩
  rw [hasDirectoryAt, hbelow, Bool.or_true]

/-- The names below a directory lead from there to a file. -/
theorem follow?_of_mem (hplain : ".." ∉ names) (h : here ++ names ∈ t.files.map (·.1)) :
    t.follow? here names = some (here ++ names) := by
  induction names generalizing here with
  | nil => rw [append_nil, follow?]
  | cons name rest ih =>
    rw [mem_cons, not_or] at hplain
    rw [follow?, if_pos (hasDirectoryAt_of_mem h (cons_ne_nil _ _)), if_neg (Ne.symm hplain.1)]
    rw [append_cons] at h
    rw [ih hplain.2 h, ← append_cons]

/-- The place of names below a directory. -/
theorem place?_below (t : Tree) (dir : Path) (names : List String) :
    t.place? { dir with names := dir.names ++ names } =
      (t.place? dir).bind (t.follow? · names) := by
  unfold place? Path.isAbsolute
  dsimp only
  split
  · exact follow?_append ..
  · rfl

/-- A path down from a directory leads to the file there. -/
theorem isFile_below_iff (dir : Path) (hplain : ".." ∉ names) :
    t.isFile { dir with names := dir.names ++ names } = true ↔
      ∃ place, t.place? dir = some place ∧ place ++ names ∈ t.files.map (·.1) := by
  rw [isFile, place?_below]
  cases hplace : t.place? dir with
  | none => simp
  | some place =>
    rw [Option.bind_some]
    cases hfollow : t.follow? place names with
    | none =>
      refine iff_of_false (by simp) ?_
      rintro ⟨other, hother, hmem⟩
      rw [← Option.some.inj hother] at hmem
      cases hfollow.symm.trans (follow?_of_mem hplain hmem)
    | some other =>
      rw [eq_of_follow? hplain hfollow, Option.map_some, Option.getD_some, hasFileAt_iff]
      simp

/-- Names below a place lead to files. -/
theorem mem_namesBelow :
    names ∈ t.namesBelow place ↔ names ≠ [] ∧ place ++ names ∈ t.files.map (·.1) := by
  rw [namesBelow, mem_mergeSort, mem_map]
  simp only [mem_filter, isBelow, Bool.and_eq_true, List.isPrefixOf_iff_prefix, decide_eq_true_iff]
  constructor
  · rintro ⟨whole, ⟨hwhole, ⟨rest, rfl⟩, hlength⟩, rfl⟩
    rw [drop_left]
    refine ⟨?_, hwhole⟩
    rintro rfl
    simp at hlength
  · intro h
    have hpos := length_pos_iff.mpr h.1
    exact ⟨_, ⟨h.2, prefix_append _ _, by rw [length_append]; omega⟩, drop_left ..⟩

/-- A rule takes in only files that lie below the directory. -/
theorem ListingRule.ne_nil_of_takes (rule : ListingRule) (names : List String)
    (h : rule.takes names = true) : names ≠ [] := by
  rintro rfl
  simp [takes] at h

/-- A listing holds the files below that its rule takes in. -/
theorem mem_sourceFiles_iff_place {dir : Path} {rule : ListingRule} {file : Path} :
    file ∈ t.sourceFiles dir rule ↔ ∃ place names, t.place? dir = some place ∧
      names ∈ t.namesBelow place ∧ rule.takes names = true ∧
      file = { dir with names := dir.names ++ names } := by
  unfold sourceFiles
  cases hplace : t.place? dir with
  | none => simp
  | some place =>
    dsimp only
    constructor
    · intro h
      split at h
      · obtain ⟨names, hnames, rfl⟩ := mem_map.mp h
        obtain ⟨hbelow, htakes⟩ := mem_filter.mp hnames
        exact ⟨place, names, rfl, hbelow, htakes, rfl⟩
      · cases h
    · rintro ⟨other, names, hother, hbelow, htakes, rfl⟩
      obtain rfl := Option.some.inj hother
      obtain ⟨hne, hmem⟩ := mem_namesBelow.mp hbelow
      rw [if_pos (hasDirectoryAt_of_mem hmem hne)]
      exact mem_map_of_mem (mem_filter.mpr ⟨hbelow, htakes⟩)

/-- A listed file's names are those of a file in the tree. -/
theorem exists_names_of_mem_sourceFiles {dir : Path} {rule : ListingRule} {file : Path}
    (h : file ∈ t.sourceFiles dir rule) :
    ∃ names, names ≠ [] ∧ (∃ entry ∈ t.files, names ⊆ entry.1) ∧
      file = { dir with names := dir.names ++ names } := by
  obtain ⟨place, names, -, hbelow, -, rfl⟩ := mem_sourceFiles_iff_place.mp h
  obtain ⟨hne, hmem⟩ := mem_namesBelow.mp hbelow
  obtain ⟨entry, hentry, heq⟩ := mem_map.mp hmem
  exact ⟨names, hne, ⟨entry, hentry, heq ▸ subset_append_right place names⟩, rfl⟩

/-- No way to a file goes up. -/
def GoesDown (t : Tree) : Prop :=
  ∀ file ∈ t.files, ".." ∉ file.1

/-- A listing holds the paths below to files that its rule takes in. -/
theorem mem_sourceFiles_iff (hdown : t.GoesDown) (dir : Path) (rule : ListingRule)
    (file : Path) : file ∈ t.sourceFiles dir rule ↔
      ∃ names, file = { dir with names := dir.names ++ names } ∧ ".." ∉ names ∧
        t.isFile file = true ∧ rule.takes names = true := by
  rw [mem_sourceFiles_iff_place]
  constructor
  · rintro ⟨place, names, hplace, hbelow, htakes, rfl⟩
    have hmem := (mem_namesBelow.mp hbelow).2
    obtain ⟨entry, hentry, heq⟩ := mem_map.mp hmem
    have hplain : ".." ∉ names := fun hdots =>
      hdown entry hentry (heq ▸ mem_append_right place hdots)
    have hfile := (isFile_below_iff dir hplain).mpr ⟨place, hplace, hmem⟩
    exact ⟨names, rfl, hplain, hfile, htakes⟩
  · rintro ⟨names, rfl, hplain, hfile, htakes⟩
    obtain ⟨place, hplace, hmem⟩ := (isFile_below_iff dir hplain).mp hfile
    have hbelow := mem_namesBelow.mpr ⟨rule.ne_nil_of_takes names htakes, hmem⟩
    exact ⟨place, names, hplace, hbelow, htakes, rfl⟩

end SiteAtlas.Tree
