import SiteAtlas.Catalog.Build
import SiteAtlas.Proofs.Collecting
import SiteAtlas.Proofs.ListedFiles

/-!
# Candidate files

Every candidate lies below the root with the names of a listed file. As no name holds a slash, it
can be told from its path text. None is listed twice for a kind, although conventional directories
may lie within each other.
-/

namespace SiteAtlas

open List

/-- No name holds a slash. -/
def SlashFree (names : List String) : Prop :=
  ∀ name ∈ names, '/' ∉ name.toList

/-- Parts of a split hold no separator. -/
theorem Text.not_mem_of_mem_splitOn (separator : Char) (cs part : List Char)
    (h : part ∈ Text.splitOn separator cs) : separator ∉ part := by
  induction cs generalizing part with
  | nil =>
    rw [Text.splitOn, mem_singleton] at h
    simp [h]
  | cons c rest ih =>
    rw [Text.splitOn] at h
    split at h
    · rcases mem_cons.mp h with rfl | hrest
      · exact not_mem_nil
      · exact ih part hrest
    · next hne =>
      cases hparts : Text.splitOn separator rest with
      | nil => exact absurd hparts (Text.splitOn_ne_nil separator rest)
      | cons first others =>
        rw [hparts] at h ih
        rcases mem_cons.mp h with rfl | hothers
        · exact not_mem_cons_of_ne_of_not_mem (Ne.symm hne) (ih first mem_cons_self)
        · exact ih part (mem_cons_of_mem first hothers)

/-- The names that are read from a text hold no slash. -/
theorem Path.slashFree_ofString (s : String) : SlashFree (Path.ofString s).names := by
  intro name hname
  obtain ⟨part, hpart, rfl⟩ := mem_map.mp hname
  rw [String.toList_ofList]
  exact Text.not_mem_of_mem_splitOn '/' _ part (mem_of_mem_filter hpart)

/-- A common beginning of two joined texts can be left out. -/
theorem Text.intercalate_append_cancel (separator : List Char) (base a b : List (List Char))
    (ha : a ≠ []) (hb : b ≠ [])
    (h : separator.intercalate (base ++ a) = separator.intercalate (base ++ b)) :
    separator.intercalate a = separator.intercalate b := by
  induction base with
  | nil => exact h
  | cons first rest ih =>
    rw [cons_append, cons_append, intercalate_cons_of_ne_nil (by simp [ha]),
      intercalate_cons_of_ne_nil (by simp [hb])] at h
    exact ih (append_cancel_left h)

/-- Names without slashes can be told from their joined text. -/
theorem Text.joinStrings_append_inj (base a b : List String) (hafree : SlashFree a)
    (hbfree : SlashFree b) (ha : a ≠ []) (hb : b ≠ [])
    (h : Text.joinStrings "/" (base ++ a) = Text.joinStrings "/" (base ++ b)) : a = b := by
  have hsplit (names : List String) (hfree : SlashFree names) (hne : names ≠ []) :
      (['/'].intercalate (names.map String.toList)).splitOn '/' = names.map String.toList := by
    refine splitOn_intercalate '/' ?_ (by simpa using hne)
    intro cs hcs
    obtain ⟨name, hname, rfl⟩ := mem_map.mp hcs
    exact hfree name hname
  have hchars := congrArg String.toList h
  simp only [Text.joinStrings, String.toList_intercalate, map_append] at hchars
  have hrest := Text.intercalate_append_cancel _ _ _ _ (by simpa using ha) (by simpa using hb)
    hchars
  have htexts : a.map String.toList = b.map String.toList := by
    rw [← hsplit a hafree ha, ← hsplit b hbfree hb]
    exact congrArg (List.splitOn '/') hrest
  exact map_injective_iff.mpr (fun _ _ => String.toList_injective) htexts

namespace Project

/-- A file lies below the root, with no slash in its names. -/
def HasBelow (p : Project) (file : Path) : Prop :=
  ∃ rest, rest ≠ [] ∧ SlashFree rest ∧ file = ⟨p.root.root, p.root.names ++ rest⟩

/-- Files below the root can be told from their path texts. -/
theorem HasBelow.eq_of_toString (p : Project) (file other : Path) (hfile : p.HasBelow file)
    (hother : p.HasBelow other) (h : file.toString = other.toString) : file = other := by
  obtain ⟨a, ha, hafree, rfl⟩ := hfile
  obtain ⟨b, hb, hbfree, rfl⟩ := hother
  have htext (names : List String) (hne : names ≠ []) :
      (Path.mk p.root.root (p.root.names ++ names)).toString =
        p.root.root.text ++ Text.joinStrings "/" (p.root.names ++ names) := by
    simp [Path.toString, hne]
  rw [htext a ha, htext b hb, String.append_right_inj] at h
  rw [Text.joinStrings_append_inj p.root.names a b hafree hbfree ha hb h]

end Project

/-- A relative path is followed from a root on. -/
theorem Path.div_eq (root : Path) (s : String) (h : (Path.ofString s).isAbsolute = false) :
    root / s = ⟨root.root, root.names ++ (Path.ofString s).names⟩ := by
  change root.join (.ofString s) = _
  rw [Path.join, h]
  rfl

namespace Tree

/-- No name of a file holds a slash. -/
def PlainNames (t : Tree) : Prop :=
  ∀ file ∈ t.files, SlashFree file.1

/-- A listed file lies below its directory. -/
theorem mem_sourceFiles (t : Tree) (h : t.PlainNames) (dir : Path) (rule : ListingRule)
    (file : Path) (hfile : file ∈ t.sourceFiles dir rule) : ∃ names, names ≠ [] ∧ SlashFree names ∧
      file = { dir with names := dir.names ++ names } := by
  obtain ⟨names, hne, ⟨entry, hentry, hsubset⟩, rfl⟩ := exists_names_of_mem_sourceFiles hfile
  exact ⟨names, hne, fun name hname => h entry hentry name (hsubset hname), rfl⟩

end Tree

namespace Candidates

variable (p : Project)

/-- Files listed in a relative directory lie below the root. -/
theorem hasBelow_of_mem_sourceFiles (h : p.tree.PlainNames) (dir : String)
    (hrelative : (Path.ofString dir).isAbsolute = false) (rule : Tree.ListingRule)
    (file : Path) (hfile : file ∈ p.tree.sourceFiles (p.root / dir) rule) : p.HasBelow file := by
  obtain ⟨names, hne, hfree, rfl⟩ := p.tree.mem_sourceFiles h _ rule file hfile
  rw [p.root.div_eq dir hrelative]
  refine ⟨(Path.ofString dir).names ++ names, by simp [hne], ?_, ?_⟩
  · intro name hname
    rcases mem_append.mp hname with hdir | hbelow
    · exact Path.slashFree_ofString dir name hdir
    · exact hfree name hbelow
  · simp

/-- Candidates: none listed twice, and all below the root. -/
structure WellListed (files : List Path) : Prop where
  nodup : files.Nodup
  hasBelow : ∀ file ∈ files, p.HasBelow file

variable {p}

/-- Candidates that are left out leave the others well listed. -/
theorem WellListed.filter {files : List Path} (h : WellListed p files) (test : Path → Bool) :
    WellListed p (files.filter test) where
  nodup := h.nodup.filter test
  hasBelow file hfile := h.hasBelow file (mem_of_mem_filter hfile)

/-- Files that follow others are the files of both. -/
theorem mem_followedBy {files others : List Path} {file : Path} :
    file ∈ followedBy files others ↔ file ∈ files ∨ file ∈ others := by
  by_cases h : file ∈ files <;> simp [Candidates.followedBy, h]

/-- Candidates that follow others are well listed if both are. -/
theorem WellListed.followedBy {files others : List Path} (h : WellListed p files)
    (hothers : WellListed p others) : WellListed p (followedBy files others) where
  nodup := by
    refine h.nodup.append (hothers.nodup.filter _) ?_
    intro file hfile hother
    simp [hfile] at hother
  hasBelow file hfile := by
    rcases mem_followedBy.mp hfile with hfile | hother
    · exact h.hasBelow file hfile
    · exact hothers.hasBelow file hother

variable (p)

/-- What a rule lists in several directories is well listed. -/
theorem wellListed_unique (h : p.tree.PlainNames) (directories : List String)
    (hrelative : ∀ dir ∈ directories, (Path.ofString dir).isAbsolute = false)
    (rule : Tree.ListingRule) : WellListed p (Text.unique
      (directories.flatMap fun dir => p.tree.sourceFiles (p.root / dir) rule)) where
  nodup := nodup_unique _
  hasBelow file hfile := by
    rw [mem_unique, mem_flatMap] at hfile
    obtain ⟨dir, hdir, hfile⟩ := hfile
    exact hasBelow_of_mem_sourceFiles p h dir (hrelative dir hdir) rule file hfile

/-- Component candidates are well listed. -/
theorem wellListed_components (h : p.tree.PlainNames) : WellListed p (components p) :=
  wellListed_unique p h componentDirectories (by decide) _

/-- Hook candidates are well listed. -/
theorem wellListed_hooks (h : p.tree.PlainNames) : WellListed p (hooks p) :=
  ((wellListed_unique p h hookDirectories (by decide) _).filter _).followedBy
    ((wellListed_unique p h _ (by decide) _).filter _)

/-- Context candidates are well listed. -/
theorem wellListed_contexts (h : p.tree.PlainNames) : WellListed p (contexts p) :=
  (wellListed_unique p h contextDirectories (by decide) _).followedBy
    ((wellListed_unique p h _ (by decide) _).filter _)

/-- Utility candidates are well listed. -/
theorem wellListed_utilities (h : p.tree.PlainNames) : WellListed p (utilities p) :=
  (wellListed_unique p h utilityDirectories (by decide) _).filter _

end Candidates

end SiteAtlas
