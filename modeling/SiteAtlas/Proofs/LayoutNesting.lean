import Mathlib.Data.List.Permutation
import SiteAtlas.Proofs.LayoutTrees
import SiteAtlas.Proofs.PathTexts

/-!
# How layouts nest

Layouts are hung into a tree one after another, outer directories first and those of one directory
by path text. None is lost, and above a layout are those of the directories above and earlier ones
of its own.
-/

namespace SiteAtlas

open List

/-- What a name is, part by part. -/
theorem PathText.isName_iff (part : List Char) :
    PathText.IsName part ↔ part ≠ [] ∧ part ≠ ['.'] ∧ '/' ∉ part :=
  ⟨fun h => ⟨h.ne_nil, h.ne_dot, h.slashFree⟩, fun h => ⟨h.1, h.2.1, h.2.2⟩⟩

instance : DecidablePred PathText.IsName :=
  fun part => decidable_of_iff _ (PathText.isName_iff part).symm

/-- How a root is written does not count among the names. -/
theorem PathText.parts_text_append (root : PathRoot) (cs : List Char) :
    PathText.parts (root.text.toList ++ cs) = PathText.parts cs := by
  cases root with
  | relative => rfl
  | slash => exact PathText.parts_append [] cs
  | doubleSlash => exact PathText.parts_append ['/'] cs

/-- A written root is read back. -/
theorem PathText.rootOf_text_append (root : PathRoot) {cs : List Char}
    (h : cs.head? ≠ some '/') : rootOf (root.text.toList ++ cs) = root := by
  have hstop : cs.takeWhile (· == '/') = [] := by
    cases cs with
    | nil => rfl
    | cons c rest => exact takeWhile_cons_of_neg (by simpa using h)
  cases root <;> simp [rootOf, PathRoot.text, hstop]

/-- A path with names that can be written between slashes. -/
structure Path.IsPlain (p : Path) : Prop where
  ne_nil : p.names ≠ []
  isName : ∀ name ∈ p.names, PathText.IsName name.toList

/-- A plain path is read back. -/
theorem Path.IsPlain.ofString_toString {p : Path} (h : p.IsPlain) :
    Path.ofString p.toString = p := by
  obtain ⟨root, names⟩ := p
  have hnames : ∀ name ∈ names.map String.toList, PathText.IsName name := by
    intro name hname
    obtain ⟨text, htext, rfl⟩ := mem_map.mp hname
    exact h.isName text htext
  have htext : (Path.mk root names).toString.toList =
      root.text.toList ++ Text.join ['/'] (names.map String.toList) := by
    have hne : names ≠ [] := h.ne_nil
    rw [Path.toString, if_neg (by simp [hne]), String.toList_append, Text.toList_joinStrings]
  unfold Path.ofString
  rw [htext, PathText.rootOf_text_append root (PathText.head_join_ne_slash hnames)]
  refine congrArg (Path.mk root) ?_
  change (PathText.parts _).map String.ofList = names
  rw [PathText.parts_text_append, PathText.parts_join hnames, map_map]
  simp

/-- Whether a directory covers another is told from texts. -/
theorem Path.IsPlain.spans_iff {outer inner : Path} (houter : outer.IsPlain)
    (hinner : inner.IsPlain) :
    Spans outer.toString inner.toString ↔ outer.parent.Covers inner.parent := by
  rw [Spans, houter.ofString_toString, hinner.ofString_toString]

/-- A directory that covers one no deeper is that one. -/
theorem Path.Covers.eq_of_length_le {outer inner : Path} (h : outer.Covers inner)
    (hlength : inner.names.length ≤ outer.names.length) : outer = inner := by
  have hnames : outer.names = inner.names := h.2.eq_of_length_le hlength
  cases outer
  cases inner
  exact (Path.mk.injEq ..).mpr ⟨h.1, hnames⟩

/-- Ancestors are what covers, but itself. -/
theorem Path.mem_ancestors_iff_ne (outer inner : Path) :
    outer ∈ inner.ancestors ↔ outer.Covers inner ∧ outer ≠ inner := by
  rw [Path.mem_ancestors]
  constructor
  · intro h
    obtain ⟨hne, hroot, hbegins⟩ := h
    refine ⟨⟨hroot, hbegins.trans (List.dropLast_prefix _)⟩, ?_⟩
    rintro rfl
    have hlength := hbegins.length_le
    have hpos := length_pos_iff.mpr hne
    simp only [Path.parent, length_dropLast] at hlength
    omega
  · intro h
    obtain ⟨hcovers, hne⟩ := h
    obtain ⟨rest, hrest⟩ := hcovers.2
    have hrestNe : rest ≠ [] := by
      rintro rfl
      exact hne (hcovers.eq_of_length_le (by simp [← hrest]))
    refine ⟨by simp [← hrest, hrestNe], hcovers.1, rest.dropLast, ?_⟩
    rw [Path.parent, ← hrest, dropLast_append_of_ne_nil hrestNe]

/-- The directory of a plain path has one name less. -/
theorem Path.IsPlain.length_parent {p : Path} (h : p.IsPlain) :
    p.parent.names.length + 1 = p.names.length := by
  have hpos := length_pos_iff.mpr h.ne_nil
  simp only [Path.parent, length_dropLast]
  omega

namespace Project

variable (dir : Path)

/-- A tree of layouts hung in order: it holds each once, with its route and below the earlier ones
whose directories cover its own. -/
structure Hung (done : List Path) (tree : LayoutNode) : Prop where
  nested : tree.Nested
  root : Path.ofString tree.filePath ∈ done ∧ (Path.ofString tree.filePath).parent = dir
  files : tree.files.Perm (done.map Path.toString)
  placed : ∀ layout ∈ tree.placed [], ∃ before file after, done = before ++ file :: after ∧
    layout.filePath = file.toString ∧ layout.route = (layoutNode dir file).route ∧
    ∀ other, other ∈ layout.above ↔
      ∃ outer ∈ before, outer.toString = other ∧ outer.parent.Covers file.parent

/-- The first layout is a tree of its own. -/
theorem hung_first (first : Path) (hplain : first.IsPlain) (hparent : first.parent = dir) :
    Hung dir [first] (layoutNode dir first) where
  nested := by simp [layoutNode, LayoutNode.Nested, NestedAmong, filesAmong]
  root := by
    change Path.ofString first.toString ∈ [first] ∧ (Path.ofString first.toString).parent = dir
    rw [hplain.ofString_toString]
    exact ⟨mem_singleton_self first, hparent⟩
  files := by simp [layoutNode, LayoutNode.files, filesAmong]
  placed layout hlayout := by
    rw [layoutNode, LayoutNode.placed, placedAmong, mem_singleton] at hlayout
    rw [hlayout]
    exact ⟨[], first, [], rfl, rfl, rfl, by simp⟩

variable {dir}

/-- Hanging a layout as deep as all before keeps the shape. -/
theorem Hung.insertLayout {done : List Path} {tree : LayoutNode} (h : Hung dir done tree)
    (hdone : ∀ file ∈ done, file.IsPlain) (new : Path) (hnew : new.IsPlain)
    (hbelow : dir.Covers new.parent) (hdeep : ∀ file ∈ done, file.names.length ≤ new.names.length) :
    Hung dir (done ++ [new]) (insertLayout (layoutNode dir new) tree) := by
  have hnames : (Path.ofString new.toString).names ≠ [] := by
    rw [hnew.ofString_toString]
    exact hnew.ne_nil
  have hroot : Spans tree.filePath new.toString := by
    rw [Spans, h.root.2, hnew.ofString_toString]
    exact hbelow
  have hspans : ∀ other ∈ tree.files, Spans new.toString other → Spans other new.toString := by
    intro other hother hcovers
    obtain ⟨file, hfile, rfl⟩ := mem_map.mp (h.files.mem_iff.mp hother)
    rw [hnew.spans_iff (hdone file hfile)] at hcovers
    have hlength : file.parent.names.length ≤ new.parent.names.length := by
      have hle := hdeep file hfile
      simp only [Path.parent, length_dropLast]
      omega
    rw [(hdone file hfile).spans_iff hnew, hcovers.eq_of_length_le hlength]
    exact file.parent.covers_refl
  obtain ⟨hnested, chain, hchain, hperm⟩ := hangsBelow_insertLayout
    (layoutNode dir new).route new.toString hnames tree h.nested hroot hspans
  have hfiles := (hperm []).map (·.filePath)
  rw [LayoutNode.map_filePath_placed, map_cons, LayoutNode.map_filePath_placed] at hfiles
  refine ⟨hnested, ?_, ?_, fun layout hlayout => ?_⟩
  · rw [filePath_insertLayout]
    exact ⟨mem_append_left _ h.root.1, h.root.2⟩
  · rw [map_append, map_singleton]
    exact hfiles.trans ((h.files.cons _).trans (perm_append_singleton _ _).symm)
  · rcases mem_cons.mp ((hperm []).mem_iff.mp hlayout) with rfl | hold
    · refine ⟨done, new, [], rfl, rfl, rfl, fun other => ?_⟩
      rw [append_nil, hchain, h.files.mem_iff, mem_map]
      constructor
      · intro hother
        obtain ⟨⟨outer, houter, rfl⟩, hcovers⟩ := hother
        exact ⟨outer, houter, rfl, ((hdone outer houter).spans_iff hnew).mp hcovers⟩
      · intro hother
        obtain ⟨outer, houter, rfl, hcovers⟩ := hother
        exact ⟨⟨outer, houter, rfl⟩, ((hdone outer houter).spans_iff hnew).mpr hcovers⟩
    · obtain ⟨before, file, after, rfl, hpath, hroute, habove⟩ := h.placed layout hold
      exact ⟨before, file, after ++ [new], by simp, hpath, hroute, habove⟩

/-- Hanging layouts in order of depth keeps the tree in shape. -/
theorem Hung.foldl {done : List Path} {tree : LayoutNode} (h : Hung dir done tree)
    (files : List Path) (hplain : ∀ file ∈ done ++ files, file.IsPlain)
    (hbelow : ∀ file ∈ files, dir.Covers file.parent)
    (hdeep : (done ++ files).Pairwise fun a b => a.names.length ≤ b.names.length) :
    Hung dir (done ++ files) ((files.map (layoutNode dir)).foldl
      (fun tree node => Project.insertLayout node tree) tree) := by
  induction files generalizing done tree with
  | nil => simpa using h
  | cons new files ih =>
    have hsplit : done ++ new :: files = (done ++ [new]) ++ files := by simp
    have hinserted : Hung dir (done ++ [new]) (Project.insertLayout (layoutNode dir new) tree) := by
      apply h.insertLayout
      · intro file hfile
        exact hplain file (mem_append_left _ hfile)
      · exact hplain new (by simp)
      · exact hbelow new mem_cons_self
      · intro file hfile
        exact (pairwise_append.mp hdeep).2.2 file hfile new mem_cons_self
    rw [hsplit] at hplain hdeep ⊢
    apply ih hinserted hplain ?_ hdeep
    intro file hfile
    exact hbelow file (mem_cons_of_mem new hfile)

/-- A project in a file system: own places and proper names. -/
structure InFileSystem (p : Project) : Prop where
  distinct : p.tree.Distinct
  files : ∀ file ∈ p.tree.files, ∀ name ∈ file.1, PathText.IsName name.toList
  root : ∀ name ∈ p.root.names, PathText.IsName name.toList

/-- The layout files below a routing directory, tests apart. -/
def layoutSources (p : Project) (dir : Path) : List Path :=
  (p.routeFilesBelow dir).filter (·.stem == "layout")

variable (p : Project)

/-- Layouts are hung by depth and, in one depth, by path text. -/
theorem layoutLE_iff (a b : Path) : layoutLE a b = true ↔
      toLex (a.names.length, a.toString) ≤ toLex (b.names.length, b.toString) := by
  rw [layoutLE, Prod.Lex.toLex_le_toLex]
  simp

/-- Layouts are hung in order. -/
theorem pairwise_layoutFiles (dir : Path) : (p.layoutFiles dir).Pairwise fun a b =>
      toLex (a.names.length, a.toString) ≤ toLex (b.names.length, b.toString) :=
  pairwise_mergeSort_of_key layoutLE _ layoutLE_iff _

/-- Layout files are sorted sources. -/
theorem perm_layoutFiles (dir : Path) : (p.layoutFiles dir).Perm (p.layoutSources dir) :=
  mergeSort_perm _ _

variable {p} (h : p.InFileSystem)
include h

/-- No name of a file holds a slash. -/
theorem InFileSystem.plainNames : p.tree.PlainNames := by
  intro file hfile name hname
  exact (h.files file hfile name hname).slashFree

/-- A layout file lies below its routing directory. -/
theorem InFileSystem.exists_below (file : Path) (hfile : file ∈ p.layoutSources dir) :
    ∃ names, names ≠ [] ∧ (∀ name ∈ names, PathText.IsName name.toList) ∧
      file = { dir with names := dir.names ++ names } := by
  obtain ⟨names, hne, ⟨entry, hentry, hsubset⟩, rfl⟩ :=
    Tree.exists_names_of_mem_sourceFiles (mem_of_mem_filter hfile)
  exact ⟨names, hne, fun name hname => h.files entry hentry name (hsubset hname), rfl⟩

/-- The routing directory of a layout covers the layout's own. -/
theorem InFileSystem.covers_parent (file : Path) (hfile : file ∈ p.layoutSources dir) :
    dir.Covers file.parent := by
  obtain ⟨names, hne, -, rfl⟩ := h.exists_below file hfile
  refine ⟨rfl, names.dropLast, ?_⟩
  rw [Path.parent, dropLast_append_of_ne_nil hne]

/-- The path of a layout can be read off its text. -/
theorem InFileSystem.isPlain (hdir : dir ∈ p.appDirectories) (file : Path)
    (hfile : file ∈ p.layoutSources dir) : file.IsPlain := by
  obtain ⟨names, hne, hnames, rfl⟩ := h.exists_below file hfile
  obtain ⟨inner, hinner, rfl⟩ := RouteArea.app.mem_existing p dir hdir
  have hinnerNames : ∀ name ∈ inner, PathText.IsName name.toList := by
    have harea : PathText.IsName "app".toList := by decide
    have hsource : PathText.IsName "src".toList := by decide
    rcases hinner with rfl | rfl
    · simpa using harea
    · simpa using ⟨hsource, harea⟩
  refine ⟨by simp [hne], fun name hname => ?_⟩
  rcases mem_append.mp hname with hbefore | hbelow
  · rcases mem_append.mp hbefore with hroot | hdir
    · exact h.root name hroot
    · exact hinnerNames name hdir
  · exact hnames name hbelow

/-- No layout is listed twice. -/
theorem InFileSystem.nodup_toString (hdir : dir ∈ p.appDirectories) :
    ((p.layoutSources dir).map Path.toString).Nodup := by
  refine List.Nodup.map_on ?_ ((p.tree.nodup_sourceFiles h.distinct dir _).filter _)
  intro file hfile other hother hsame
  rw [← (h.isPlain hdir file hfile).ofString_toString, hsame,
    (h.isPlain hdir other hother).ofString_toString]

/-- A layout file has one page, a layout with its route. -/
theorem InFileSystem.exists_candidate (hdir : dir ∈ p.appDirectories) (file : Path)
    (hfile : file ∈ p.layoutSources dir) :
    ∃ candidate ∈ p.appPages, candidate.page.filePath = file.toString ∧
      candidate.page.roles.layout = true ∧ candidate.page.route = (layoutNode dir file).route ∧
      ∀ other ∈ p.appPages, other.page.filePath = file.toString → other = candidate := by
  obtain ⟨hlisted, hstem⟩ := mem_filter.mp hfile
  let page : Page :=
    { route := (layoutNode dir file).route, filePath := file.toString, fileName := file.name
      roles := { layout := true } }
  have hspecial : specialPage? dir file = some page := by
    rw [specialPage?, beq_iff_eq.mp hstem]
    rfl
  have hmem : { page } ∈ p.appPages := by
    rw [appPages, mem_flatMap]
    refine ⟨dir, hdir, mem_filterMap.mpr ⟨file, hlisted, ?_⟩⟩
    rw [hspecial]
    rfl
  refine ⟨{ page }, hmem, rfl, rfl, rfl, fun other hother hpath => ?_⟩
  exact inj_on_of_nodup_map (p.routedPages_appPages h.plainNames h.distinct).nodup hother hmem hpath

omit h

/-- The tree of layouts that grows from a first layout. -/
def grown (dir first : Path) (rest : List Path) : LayoutNode :=
  (rest.map (layoutNode dir)).foldl (fun tree node => insertLayout node tree) (layoutNode dir first)

/-- There is a tree if the first layout lies right in the directory. -/
theorem layouts_eq_some_iff (tree : LayoutNode) :
    p.layouts = some tree ↔ ∃ dir first rest, p.appDirectories.head? = some dir ∧
      p.layoutFiles dir = first :: rest ∧ first.parent = dir ∧ tree = grown dir first rest := by
  unfold layouts
  cases hdirectories : p.appDirectories with
  | nil => simp
  | cons dir others =>
    simp only [head?_cons, Option.some.injEq]
    constructor
    · intro htree
      cases hfiles : p.layoutFiles dir with
      | nil => simp [hfiles] at htree
      | cons first rest =>
        simp only [hfiles, Option.ite_none_right_eq_some, Option.some.injEq] at htree
        exact ⟨dir, first, rest, rfl, hfiles, htree.1, htree.2.symm⟩
    · intro htree
      obtain ⟨_, first, rest, rfl, hfiles, hparent, rfl⟩ := htree
      simp only [hfiles, hparent, if_true]
      rfl

include h

/-- If some layout lies right in the directory, the first does. -/
theorem InFileSystem.parent_first (first : Path) (rest : List Path)
    (hfiles : p.layoutFiles dir = first :: rest) (file : Path)
    (hfile : file ∈ p.layoutSources dir) (hparent : file.parent = dir) : first.parent = dir := by
  have hfirst : first ∈ p.layoutSources dir := by
    rw [← (p.perm_layoutFiles dir).mem_iff, hfiles]
    exact mem_cons_self
  have hle : first.names.length ≤ file.names.length := by
    have hmem := (p.perm_layoutFiles dir).mem_iff.mpr hfile
    have hsorted := p.pairwise_layoutFiles dir
    rw [hfiles] at hmem hsorted
    rcases mem_cons.mp hmem with rfl | hrest
    · exact Nat.le_refl _
    · rcases Prod.Lex.toLex_le_toLex.mp ((pairwise_cons.mp hsorted).1 file hrest) with
        hlt | heq
      · exact Nat.le_of_lt hlt
      · exact Nat.le_of_eq heq.1
  have hlength : first.parent.names.length ≤ dir.names.length := by
    rw [← hparent]
    simp only [Path.parent, length_dropLast]
    omega
  exact ((h.covers_parent first hfirst).eq_of_length_le hlength).symm

/-- Before a layout, those that cover its directory are of directories above, or of its own with an
earlier path text. -/
theorem InFileSystem.mem_before_iff (hdir : dir ∈ p.appDirectories)
    (before after : List Path) (file : Path)
    (hfiles : p.layoutFiles dir = before ++ file :: after) (outer : Path) :
    outer ∈ before ∧ outer.parent.Covers file.parent ↔ outer ∈ p.layoutSources dir ∧ outer ≠ file ∧
        (outer.parent ∈ file.parent.ancestors ∨
          outer.parent = file.parent ∧ outer.toString < file.toString) := by
  have hsorted := p.pairwise_layoutFiles dir
  have hnodup : ((p.layoutFiles dir).map Path.toString).Nodup :=
    ((p.perm_layoutFiles dir).map _).nodup_iff.mpr (h.nodup_toString hdir)
  have hlength : ∀ other ∈ p.layoutFiles dir,
      other.parent.names.length + 1 = other.names.length := by
    intro other hother
    exact (h.isPlain hdir other ((p.perm_layoutFiles dir).mem_iff.mp hother)).length_parent
  rw [← (p.perm_layoutFiles dir).mem_iff]
  rw [hfiles] at hsorted hnodup hlength ⊢
  obtain ⟨-, hfrom, hbefore⟩ := pairwise_append.mp hsorted
  have hafter := (pairwise_cons.mp hfrom).1
  have hfile := hlength file (by simp)
  constructor
  · intro hcovering
    obtain ⟨hmem, hcovers⟩ := hcovering
    have hne : outer.toString ≠ file.toString := by
      rw [map_append, nodup_append] at hnodup
      exact hnodup.2.2 _ (mem_map_of_mem hmem) _ (by simp)
    refine ⟨mem_append_left _ hmem, fun hsame => hne (by rw [hsame]), ?_⟩
    by_cases hparent : outer.parent = file.parent
    · have houter := hlength outer (mem_append_left _ hmem)
      rw [hparent] at houter
      rcases Prod.Lex.toLex_le_toLex.mp (hbefore outer hmem file mem_cons_self) with hlt | hle
      · dsimp only at hlt
        omega
      · exact .inr ⟨hparent, lt_of_le_of_ne hle.2 hne⟩
    · exact .inl ((Path.mem_ancestors_iff_ne _ _).mpr ⟨hcovers, hparent⟩)
  · intro hother
    obtain ⟨hmem, hne, hplace⟩ := hother
    have houter := hlength outer hmem
    -- A layout that is hung later lies deeper, or as deep and has a later path text.
    have hearlier : outer ∈ before := by
      rcases mem_append.mp hmem with hmem | hmem
      · exact hmem
      · have hle := Prod.Lex.toLex_le_toLex.mp
          (hafter outer ((mem_cons.mp hmem).resolve_left hne))
        dsimp only at hle
        rcases hplace with habove | ⟨hparent, hlt⟩
        · obtain ⟨hcovers, hother⟩ := (Path.mem_ancestors_iff_ne _ _).mp habove
          have hdeeper := mt hcovers.eq_of_length_le hother
          omega
        · rw [hparent] at houter
          rcases hle with hdeeper | ⟨-, htext⟩
          · omega
          · exact absurd hlt (not_lt_of_ge htext)
    refine ⟨hearlier, ?_⟩
    rcases hplace with habove | ⟨hparent, -⟩
    · exact ((Path.mem_ancestors_iff_ne _ _).mp habove).1
    · rw [hparent]
      exact file.parent.covers_refl

/-- The tree of the layout files holds them in order. -/
theorem InFileSystem.hung_grown (hdir : dir ∈ p.appDirectories) (first : Path)
    (rest : List Path) (hfiles : p.layoutFiles dir = first :: rest) (hparent : first.parent = dir) :
    Hung dir (first :: rest) (grown dir first rest) := by
  have hsource : ∀ file ∈ [first] ++ rest, file ∈ p.layoutSources dir := by
    intro file hfile
    rw [← (p.perm_layoutFiles dir).mem_iff, hfiles]
    exact hfile
  have hplain : ∀ file ∈ [first] ++ rest, file.IsPlain := by
    intro file hfile
    exact h.isPlain hdir file (hsource file hfile)
  have hdeep : ([first] ++ rest).Pairwise fun a b => a.names.length ≤ b.names.length := by
    have hsorted := p.pairwise_layoutFiles dir
    rw [hfiles] at hsorted
    refine List.Pairwise.imp ?_ hsorted
    intro a b hab
    rcases Prod.Lex.toLex_le_toLex.mp hab with hlt | heq
    · exact Nat.le_of_lt hlt
    · exact Nat.le_of_eq heq.1
  apply (hung_first dir first (hplain first (by simp)) hparent).foldl rest hplain ?_ hdeep
  intro file hfile
  exact h.covers_parent file (hsource file (mem_append_right _ hfile))

omit h

/-- A layout of the tree stands for a layout file: it has the route of the file's one page, and
hangs below the layouts of the directories above and earlier ones of its own. -/
structure StandsFor [Host] (p : Project) (dir : Path) (layout : PlacedLayout) (file : Path) :
    Prop where
  filePath : layout.filePath = file.toString
  route : ∃ candidates, p.pages .nextjsApp = .ok candidates ∧
    ∃ candidate ∈ candidates, candidate.page.filePath = file.toString ∧
      candidate.page.roles.layout = true ∧ candidate.page.route = layout.route ∧
      ∀ other ∈ candidates, other.page.filePath = file.toString → other = candidate
  above : ∀ other, other ∈ layout.above ↔
    ∃ outer ∈ p.layoutSources dir, outer.toString = other ∧ outer ≠ file ∧
      (outer.parent ∈ file.parent.ancestors ∨
        outer.parent = file.parent ∧ outer.toString < file.toString)

/-- There is a tree of layouts exactly if a layout file lies right in the first routing directory.
It holds every layout file below that once, with the route of its page, below exactly the layouts of
the directories above and the earlier ones of its own. -/
theorem layouts_nest [Host] (p : Project) (h : p.InFileSystem) :
    (p.layouts = none ↔ ∀ directory, p.appDirectories.head? = some directory →
      ∀ file ∈ p.layoutSources directory, file.parent ≠ directory) ∧
    ∀ directory tree, p.appDirectories.head? = some directory → p.layouts = some tree →
      (tree.files.Perm ((p.layoutSources directory).map Path.toString) ∧ tree.files.Nodup) ∧
      ∀ layout ∈ tree.placed [], ∃ file ∈ p.layoutSources directory,
        StandsFor p directory layout file := by
  constructor
  · rw [← Option.not_isSome_iff_eq_none, Option.isSome_iff_exists]
    simp only [layouts_eq_some_iff]
    constructor
    · intro hnone directory hdirectory file hfile hparent
      have hmem := (p.perm_layoutFiles directory).mem_iff.mpr hfile
      obtain ⟨first, rest, hfiles⟩ := List.exists_cons_of_ne_nil (List.ne_nil_of_mem hmem)
      exact hnone ⟨_, directory, first, rest, hdirectory, hfiles,
        h.parent_first first rest hfiles file hfile hparent, rfl⟩
    · intro hall htree
      obtain ⟨_, directory, first, rest, hdirectory, hfiles, hparent, -⟩ := htree
      have hfirst : first ∈ p.layoutSources directory := by
        rw [← (p.perm_layoutFiles directory).mem_iff, hfiles]
        exact List.mem_cons_self
      exact hall directory hdirectory first hfirst hparent
  · intro directory tree hdirectory htree
    obtain ⟨other, first, rest, hother, hfiles, hparent, rfl⟩ := (layouts_eq_some_iff tree).mp htree
    obtain rfl : directory = other := Option.some.inj (hdirectory.symm.trans hother)
    have hmem : directory ∈ p.appDirectories := List.mem_of_mem_head? hdirectory
    have hhung := h.hung_grown hmem first rest hfiles hparent
    have hperm : (first :: rest).Perm (p.layoutSources directory) :=
      hfiles ▸ p.perm_layoutFiles directory
    have hall := hhung.files.trans (hperm.map Path.toString)
    refine ⟨⟨hall, hall.nodup_iff.mpr (h.nodup_toString hmem)⟩, fun layout hlayout => ?_⟩
    obtain ⟨before, file, after, hsplit, hpath, hroute, habove⟩ := hhung.placed layout hlayout
    have hfile : file ∈ p.layoutSources directory := by
      rw [← hperm.mem_iff, hsplit]
      simp
    refine ⟨file, hfile, hpath, ?_, fun other => ?_⟩
    · rw [hroute]
      exact ⟨p.appPages, rfl, h.exists_candidate hmem file hfile⟩
    · rw [habove]
      have hbefore := h.mem_before_iff hmem before after file (hfiles.trans hsplit)
      constructor
      · intro houter
        obtain ⟨outer, hearlier, rfl, hcovers⟩ := houter
        obtain ⟨hsource, hplace⟩ := (hbefore outer).mp ⟨hearlier, hcovers⟩
        exact ⟨outer, hsource, rfl, hplace⟩
      · intro houter
        obtain ⟨outer, hsource, rfl, hplace⟩ := houter
        obtain ⟨hearlier, hcovers⟩ := (hbefore outer).mpr ⟨hsource, hplace⟩
        exact ⟨outer, hearlier, rfl, hcovers⟩

/-- A project with two layouts in one directory and a group. -/
def groupProject : Project where
  tree :=
    { files := [(["r", "app", "(a)", "b", "layout.tsx"], []),
        (["r", "app", "(a)", "layout.tsx"], []),
        (["r", "app", "(c)", "layout.tsx"], []), (["r", "app", "layout.js"], []),
        (["r", "app", "layout.tsx"], [])]
      directories := [] }
  root := ⟨.slash, ["r"]⟩
  ignored := []

/-- The layouts of the project. -/
theorem layoutSources_groupProject : groupProject.layoutSources ⟨.slash, ["r", "app"]⟩ =
    [⟨.slash, ["r", "app", "(a)", "b", "layout.tsx"]⟩, ⟨.slash, ["r", "app", "(a)", "layout.tsx"]⟩,
      ⟨.slash, ["r", "app", "(c)", "layout.tsx"]⟩, ⟨.slash, ["r", "app", "layout.js"]⟩,
      ⟨.slash, ["r", "app", "layout.tsx"]⟩] := by cbv

attribute [local instance] Host.usual

/-- The layouts form a tree, each where its directory says. -/
theorem layouts_nest_groupProject : groupProject.InFileSystem ∧
      groupProject.appDirectories.head? = some ⟨.slash, ["r", "app"]⟩ ∧
      ∃ tree, groupProject.layouts = some tree ∧
        tree.files.Perm ["/r/app/(a)/b/layout.tsx", "/r/app/(a)/layout.tsx",
          "/r/app/(c)/layout.tsx", "/r/app/layout.js", "/r/app/layout.tsx"] ∧
        ∀ layout ∈ tree.placed [], ∃ file ∈ groupProject.layoutSources ⟨.slash, ["r", "app"]⟩,
          StandsFor groupProject ⟨.slash, ["r", "app"]⟩ layout file := by
  have hsystem : groupProject.InFileSystem := by
    exact ⟨by unfold Tree.Distinct; decide, by decide, by decide⟩
  have hdirectory : groupProject.appDirectories.head? = some ⟨.slash, ["r", "app"]⟩ := by
    decide +kernel
  obtain ⟨hnone, htrees⟩ := layouts_nest groupProject hsystem
  have hsome : groupProject.layouts ≠ none := by
    intro h
    refine hnone.mp h _ hdirectory ⟨.slash, ["r", "app", "layout.js"]⟩ ?_ rfl
    rw [layoutSources_groupProject]
    simp
  obtain ⟨tree, htree⟩ := Option.ne_none_iff_exists'.mp hsome
  obtain ⟨hfiles, hplaced⟩ := htrees _ tree hdirectory htree
  refine ⟨hsystem, hdirectory, tree, htree, ?_, hplaced⟩
  rw [layoutSources_groupProject] at hfiles
  exact hfiles.1

end Project

end SiteAtlas
