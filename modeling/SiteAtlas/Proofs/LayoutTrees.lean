import SiteAtlas.Project.Layouts
import Mathlib.Data.List.Infix

/-!
# Hanging a layout into a tree

A layout spans another if its directory is the other's or lies above it. A new layout is hung below
the first one that spans it, and then below the first one there. If every layout spans what hangs
below it, and none a neighbour, there is one way down, through exactly those that span the new one.
-/

namespace SiteAtlas

open List

/-- A layout with the files of those above it, nearest first. -/
structure PlacedLayout where
  route : String
  filePath : String
  above : List String

mutual

/-- The layouts of a tree that hangs below given files. -/
def LayoutNode.placed (above : List String) : LayoutNode → List PlacedLayout
  | .node route filePath children =>
    ⟨route, filePath, above⟩ :: placedAmong (filePath :: above) children

/-- The layouts of neighbouring trees below given files. -/
def placedAmong (above : List String) : List LayoutNode → List PlacedLayout
  | [] => []
  | tree :: rest => tree.placed above ++ placedAmong above rest

end

mutual

/-- All files of a tree, outer first. -/
def LayoutNode.files : LayoutNode → List String
  | .node _ filePath children => filePath :: filesAmong children

/-- The files of neighbouring trees. -/
def filesAmong : List LayoutNode → List String
  | [] => []
  | tree :: rest => tree.files ++ filesAmong rest

end

mutual

/-- Where a tree hangs does not change its files. -/
theorem LayoutNode.map_filePath_placed (above : List String) :
    ∀ tree : LayoutNode, (tree.placed above).map (·.filePath) = tree.files
  | .node route filePath children => by
    rw [LayoutNode.placed, LayoutNode.files, map_cons, map_filePath_placedAmong]

/-- Where neighbouring trees hang does not change their files. -/
theorem map_filePath_placedAmong (above : List String) :
    ∀ trees : List LayoutNode, (placedAmong above trees).map (·.filePath) = filesAmong trees
  | [] => rfl
  | tree :: rest => by
    rw [placedAmong, filesAmong, map_append, LayoutNode.map_filePath_placed,
      map_filePath_placedAmong]

end

/-- The root of a tree is one of its files. -/
theorem LayoutNode.filePath_mem_files (tree : LayoutNode) : tree.filePath ∈ tree.files := by
  cases tree with
  | node route filePath children => exact mem_cons_self

/-- A path lies at another one or above it. -/
def Path.Covers (outer inner : Path) : Prop :=
  outer.root = inner.root ∧ outer.names <+: inner.names

/-- One file's directory is another's or lies above it. -/
def Spans (outer inner : String) : Prop :=
  (Path.ofString outer).parent.Covers (Path.ofString inner).parent

/-- A path covers itself. -/
theorem Path.covers_refl (p : Path) : p.Covers p :=
  ⟨rfl, prefix_rfl⟩

/-- The paths above a path are those that cover its parent. -/
theorem Path.mem_ancestors (outer inner : Path) :
    outer ∈ inner.ancestors ↔ inner.names ≠ [] ∧ outer.Covers inner.parent := by
  unfold Path.ancestors Path.Covers Path.parent
  simp only [mem_map, mem_reverse, mem_range]
  constructor
  · intro h
    obtain ⟨n, hn, rfl⟩ := h
    have hne : inner.names ≠ [] := by
      intro hnil
      simp [hnil] at hn
    refine ⟨hne, rfl, ?_⟩
    rw [dropLast_eq_take]
    exact take_prefix_take_left (by omega)
  · intro h
    obtain ⟨hne, hroot, hbegins⟩ := h
    have hlength := hbegins.length_le
    rw [length_dropLast] at hlength
    have hpos := length_pos_iff.mpr hne
    refine ⟨outer.names.length, by omega, ?_⟩
    have htake := prefix_iff_eq_take.mp (hbegins.trans (List.dropLast_prefix inner.names))
    rw [← hroot, ← htake]

/-- A path has names below just those that lie above it. -/
theorem Path.any_below?_iff (inner base : Path) :
    (inner.below? base).any (!·.isEmpty) = true ↔ base ∈ inner.ancestors := by
  unfold Path.below? Path.ancestors
  simp only [mem_map, mem_reverse, mem_range]
  constructor
  · intro h
    split at h
    · next hbelow =>
      simp only [Bool.and_eq_true, decide_eq_true_eq, isPrefixOf_iff_prefix] at hbelow
      have hlength : base.names.length < inner.names.length := by simpa using h
      refine ⟨base.names.length, hlength, ?_⟩
      rw [hbelow.1, ← prefix_iff_eq_take.mp hbelow.2]
    · cases h
  · rintro ⟨n, hn, rfl⟩
    rw [if_pos (by simp [ isPrefixOf_iff_prefix, take_prefix])]
    simp [Nat.min_eq_left hn.le, hn]

/-- A layout is hung below another exactly if spanned by it. -/
theorem layoutContains_iff (outer inner : String) (hinner : (Path.ofString inner).names ≠ []) :
    Project.layoutContains (.ofString outer) (.ofString inner) = true ↔ Spans outer inner := by
  rw [Project.layoutContains, Path.any_below?_iff, Path.mem_ancestors]
  exact and_iff_right hinner

/-- What spans a spanning file spans. -/
theorem Spans.trans {a b c : String} (hab : Spans a b) (hbc : Spans b c) : Spans a c :=
  ⟨hab.1.trans hbc.1, hab.2.trans hbc.2⟩

/-- Of two layouts that span a third one, one spans the other. -/
theorem Spans.comparable {a b c : String} (hac : Spans a c) (hbc : Spans b c) :
    Spans a b ∨ Spans b a := by
  rcases prefix_or_prefix_of_prefix hac.2 hbc.2 with hab | hba
  · exact .inl ⟨hac.1.trans hbc.1.symm, hab⟩
  · exact .inr ⟨hbc.1.trans hac.1.symm, hba⟩

mutual

/-- Every layout spans what is below it, and no neighbour. -/
def LayoutNode.Nested : LayoutNode → Prop
  | .node _ filePath children => (∀ file ∈ filesAmong children, Spans filePath file) ∧
    NestedAmong children

/-- Neighbouring trees are nested, and none spans another. -/
def NestedAmong : List LayoutNode → Prop
  | [] => True
  | tree :: rest => tree.Nested ∧
    (∀ other ∈ rest, ¬ Spans tree.filePath other.filePath ∧ ¬ Spans other.filePath tree.filePath) ∧
    NestedAmong rest

end

/-- In a nested tree the root spans all. -/
theorem LayoutNode.Nested.spans_of_mem {tree : LayoutNode} (h : tree.Nested) {outer inner : String}
    (houter : outer ∈ tree.files) (hspans : Spans outer inner) : Spans tree.filePath inner := by
  cases tree with
  | node route filePath children =>
    rcases mem_cons.mp houter with rfl | hbelow
    · exact hspans
    · exact (h.1 outer hbelow).trans hspans

/-- What neighbouring trees span, a root of them spans. -/
theorem NestedAmong.exists_spans_of_mem {trees : List LayoutNode} (h : NestedAmong trees)
    {outer inner : String} (houter : outer ∈ filesAmong trees) (hspans : Spans outer inner) :
    ∃ tree ∈ trees, Spans tree.filePath inner := by
  induction trees with
  | nil => cases houter
  | cons tree rest ih =>
    rcases mem_append.mp houter with htree | hrest
    · exact ⟨tree, mem_cons_self, h.1.spans_of_mem htree hspans⟩
    · obtain ⟨other, hother, hspansOther⟩ := ih h.2.2 hrest
      exact ⟨other, mem_cons_of_mem tree hother, hspansOther⟩

namespace Project

/-- Hanging a layout below another one does not change the root. -/
theorem filePath_insertLayout (new tree : LayoutNode) :
    (insertLayout new tree).filePath = tree.filePath := by
  cases tree with
  | node route filePath children => rw [insertLayout]; rfl

/-- Hanging a layout keeps the roots, and perhaps adds it. -/
theorem filePath_of_mem_insertAmong (new : LayoutNode) (trees : List LayoutNode) (tree : LayoutNode)
    (h : tree ∈ insertAmong new trees) :
    tree.filePath = new.filePath ∨ ∃ other ∈ trees, tree.filePath = other.filePath := by
  induction trees with
  | nil =>
    rw [insertAmong, mem_singleton] at h
    exact .inl (by rw [h])
  | cons first rest ih =>
    rw [insertAmong] at h
    split at h
    · rcases mem_cons.mp h with rfl | hrest
      · exact .inr ⟨first, mem_cons_self, filePath_insertLayout new first⟩
      · exact .inr ⟨tree, mem_cons_of_mem first hrest, rfl⟩
    · rcases mem_cons.mp h with rfl | hrest
      · exact .inr ⟨tree, mem_cons_self, rfl⟩
      · rcases ih hrest with hnew | ⟨other, hother, hsame⟩
        · exact .inl hnew
        · exact .inr ⟨other, mem_cons_of_mem first hother, hsame⟩

section

variable (route file : String) (hfile : (Path.ofString file).names ≠ [])

/-- A new layout is added once, below those that span it. -/
def HangsBelow (files : List String) (before after : List String → List PlacedLayout) : Prop :=
  ∃ chain, (∀ other, other ∈ chain ↔ other ∈ files ∧ Spans other file) ∧
    ∀ above, (after above).Perm (⟨route, file, chain ++ above⟩ :: before above)

include hfile

/-- A layout goes into the first tree that spans it. -/
theorem insertAmong_of_spans (tree : LayoutNode) (rest : List LayoutNode)
    (h : Spans tree.filePath file) : insertAmong (.node route file []) (tree :: rest) =
      insertLayout (.node route file []) tree :: rest := by
  rw [insertAmong]
  exact if_pos ((layoutContains_iff tree.filePath file hfile).mpr h)

/-- A layout passes a tree that does not span it. -/
theorem insertAmong_of_not_spans (tree : LayoutNode) (rest : List LayoutNode)
    (h : ¬ Spans tree.filePath file) : insertAmong (.node route file []) (tree :: rest) =
      tree :: insertAmong (.node route file []) rest := by
  rw [insertAmong]
  exact if_neg fun hcontains => h ((layoutContains_iff tree.filePath file hfile).mp hcontains)

mutual

/-- Hanging a layout into a spanning tree keeps it nested and adds it. -/
theorem hangsBelow_insertLayout : ∀ tree : LayoutNode, tree.Nested → Spans tree.filePath file →
    (∀ other ∈ tree.files, Spans file other → Spans other file) →
    (insertLayout (.node route file []) tree).Nested ∧
      HangsBelow route file tree.files (tree.placed ·)
        ((insertLayout (.node route file []) tree).placed ·)
  | .node rootRoute root children, hnested, hroot, hdeep => by
    have hbelow : ∀ other ∈ filesAmong children, Spans file other → Spans other file := by
      intro other hother
      exact hdeep other (mem_cons_of_mem root hother)
    obtain ⟨hamong, chain, hchain, hperm⟩ := hangsBelow_insertAmong children hnested.2 hbelow
    rw [insertLayout]
    constructor
    · refine ⟨fun other hother => ?_, hamong⟩
      have hfiles := (hperm []).map (·.filePath)
      rw [map_filePath_placedAmong, map_cons, map_filePath_placedAmong] at hfiles
      rcases mem_cons.mp (hfiles.mem_iff.mp hother) with rfl | hold
      · exact hroot
      · exact hnested.1 other hold
    · refine ⟨chain ++ [root], fun other => ?_, fun above => ?_⟩
      · rw [mem_append, mem_singleton, hchain, LayoutNode.files, mem_cons]
        constructor
        · intro h
          rcases h with ⟨hother, hspans⟩ | rfl
          · exact ⟨.inr hother, hspans⟩
          · exact ⟨.inl rfl, hroot⟩
        · intro h
          rcases h with ⟨rfl | hother, hspans⟩
          · exact .inr rfl
          · exact .inl ⟨hother, hspans⟩
      · have hinner := hperm (root :: above)
        rw [← singleton_append, ← append_assoc] at hinner
        exact (hinner.cons _).trans (.swap _ _ _)

/-- Hanging a layout among trees keeps them nested and adds it. -/
theorem hangsBelow_insertAmong : ∀ trees : List LayoutNode, NestedAmong trees →
    (∀ other ∈ filesAmong trees, Spans file other → Spans other file) →
    NestedAmong (insertAmong (.node route file []) trees) ∧
      HangsBelow route file (filesAmong trees) (placedAmong · trees)
        (placedAmong · (insertAmong (.node route file []) trees))
  | [], hnested, hdeep => by
    rw [insertAmong]
    constructor
    · simp [NestedAmong, LayoutNode.Nested, filesAmong]
    · refine ⟨[], fun other => by simp [filesAmong], fun above => ?_⟩
      simp [placedAmong, LayoutNode.placed]
  | tree :: rest, hnested, hdeep => by
    obtain ⟨htree, hapart, hrest⟩ := hnested
    have hdeepTree : ∀ other ∈ tree.files, Spans file other → Spans other file := by
      intro other hother
      exact hdeep other (mem_append_left _ hother)
    have hdeepRest : ∀ other ∈ filesAmong rest, Spans file other → Spans other file := by
      intro other hother
      exact hdeep other (mem_append_right _ hother)
    by_cases hspans : Spans tree.filePath file
    · -- A neighbour that spans the layout as well would span the tree or be spanned by it.
      have hnone : ∀ other ∈ filesAmong rest, ¬ Spans other file := by
        intro other hother hspansOther
        obtain ⟨next, hnext, hspansNext⟩ := hrest.exists_spans_of_mem hother hspansOther
        rcases hspans.comparable hspansNext with hto | hfrom
        · exact (hapart next hnext).1 hto
        · exact (hapart next hnext).2 hfrom
      obtain ⟨hinserted, chain, hchain, hperm⟩ :=
        hangsBelow_insertLayout tree htree hspans hdeepTree
      rw [insertAmong_of_spans route file hfile tree rest hspans]
      constructor
      · refine ⟨hinserted, ?_, hrest⟩
        rw [filePath_insertLayout]
        exact hapart
      · refine ⟨chain, fun other => ?_, fun above => (hperm above).append_right _⟩
        rw [hchain, filesAmong, mem_append]
        constructor
        · intro h
          exact ⟨.inl h.1, h.2⟩
        · intro h
          exact ⟨h.1.resolve_right fun hother => hnone other hother h.2, h.2⟩
    · -- No layout of the tree spans the new one, and it spans none of them.
      have hnone : ∀ other ∈ tree.files, ¬ Spans other file := by
        intro other hother hspansOther
        exact hspans (htree.spans_of_mem hother hspansOther)
      obtain ⟨hinserted, chain, hchain, hperm⟩ := hangsBelow_insertAmong rest hrest hdeepRest
      rw [insertAmong_of_not_spans route file hfile tree rest hspans]
      constructor
      · refine ⟨htree, fun other hother => ?_, hinserted⟩
        rcases filePath_of_mem_insertAmong _ rest other hother with hnew | ⟨old, hold, hsame⟩
        · rw [hnew]
          exact ⟨hspans, fun h => hspans (hdeepTree tree.filePath tree.filePath_mem_files h)⟩
        · rw [hsame]
          exact hapart old hold
      · refine ⟨chain, fun other => ?_, fun above => ?_⟩
        · rw [hchain, filesAmong, mem_append]
          constructor
          · intro h
            exact ⟨.inr h.1, h.2⟩
          · intro h
            exact ⟨h.1.resolve_left fun hother => hnone other hother h.2, h.2⟩
        · exact ((hperm above).append_left _).trans perm_middle

end

end

end Project

end SiteAtlas
