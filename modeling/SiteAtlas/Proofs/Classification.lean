import SiteAtlas.Proofs.CandidateFiles
import SiteAtlas.Proofs.Loading
import SiteAtlas.Proofs.Sorting

/-!
# Every file has one kind

A file counts as the first kind that it qualifies for. One stage is described for any kind: under a
path there is what the file holds, if it is a candidate and was not taken before. The paths taken
are those of files claimed, so over four stages no path counts twice.
-/

namespace SiteAtlas

open List

section Sorting

variable {α : Type} (filePath name : α → String)

/-- Entities are in order of paths, and then of names. -/
def InPathOrder (items : List α) : Prop :=
  items.Pairwise fun a b => filePath a < filePath b ∨ filePath a = filePath b ∧ name a ≤ name b

/-- Sorting by pairs gives path order. -/
theorem inPathOrder_sortByPair (items : List α) :
    InPathOrder filePath name (sortByPair (fun x => (filePath x, name x)) items) := by
  refine (pairwise_sortByPair (fun x => (filePath x, name x)) items).imp ?_
  intro a b hle
  exact Prod.Lex.toLex_le_toLex.mp hle

/-- Sorting by path is enough if paths differ. -/
theorem inPathOrder_sortByText (items : List α)
    (hnodup : ((sortByText filePath items).map filePath).Nodup) :
    InPathOrder filePath name (sortByText filePath items) := by
  refine ((pairwise_sortByText filePath items).and (pairwise_map.mp hnodup)).imp ?_
  rintro a b ⟨hle, hne⟩
  exact Or.inl (lt_of_le_of_ne hle hne)

end Sorting

/-- Entities of a kind are what free candidates hold. -/
structure Classified {α : Type} (filePath : α → String) (candidates : List Path)
    (found : Path → List α) (taken : List String) (items : List α) : Prop where
  /-- A path has entities if it is free and a candidate's that holds some. -/
  mem_paths_iff : ∀ path, path ∈ items.map filePath ↔
    path ∉ taken ∧ ∃ file ∈ candidates, file.toString = path ∧ found file ≠ []
  /-- A free candidate has exactly what is found in it. -/
  exact : ∀ file ∈ candidates, file.toString ∉ taken →
    (items.filter (filePath · == file.toString)).Perm (found file)

namespace Classified

variable {α : Type} {filePath : α → String} {candidates : List Path} {found : Path → List α}
  {taken : List String} {items : List α} (h : Classified filePath candidates found taken items)
include h

/-- A kind leaves alone the paths that are taken. -/
theorem disjoint : taken.Disjoint (items.map filePath) := by
  intro path htaken hmem
  exact ((h.mem_paths_iff path).mp hmem).1 htaken

/-- No path has two entities if a file holds at most one. -/
theorem nodup_paths (hone : ∀ file, (found file).length ≤ 1) : (items.map filePath).Nodup := by
  rw [nodup_iff_count_le_one]
  intro path
  by_cases hmem : path ∈ items.map filePath
  · obtain ⟨hfree, file, hfile, rfl, -⟩ := (h.mem_paths_iff path).mp hmem
    have hcount : (items.map filePath).count file.toString =
        (items.filter (filePath · == file.toString)).length := by
      rw [List.count, countP_map, countP_eq_length_filter]
      rfl
    rw [hcount, (h.exact file hfile hfree).length_eq]
    exact hone file
  · rw [count_eq_zero_of_not_mem hmem]
    exact Nat.zero_le 1

end Classified

/-- Files claimed so far, with the paths taken by them. -/
structure Claims (p : Project) (claimed : List Path) (taken : List String) : Prop where
  hasBelow : ∀ file ∈ claimed, p.HasBelow file
  mem_taken_iff : ∀ path, path ∈ taken ↔ ∃ file ∈ claimed, file.toString = path

/-- At first nothing is claimed. -/
theorem claims_nil (p : Project) : Claims p [] [] where
  hasBelow := by simp
  mem_taken_iff := by simp

section Stage

variable {p : Project} {α : Type} {filePath : α → String} {claimed candidates : List Path}
  {taken : List String} {found : Path → List α} {items : List α}

/-- A file is claimed exactly if its path is taken. -/
theorem Claims.mem_iff (h : Claims p claimed taken) (file : Path) (hfile : p.HasBelow file) :
    file ∈ claimed ↔ file.toString ∈ taken := by
  rw [h.mem_taken_iff]
  constructor
  · intro hclaimed
    exact ⟨file, hclaimed, rfl⟩
  · rintro ⟨other, hother, htext⟩
    rwa [← Project.HasBelow.eq_of_toString p other file (h.hasBelow other hother) hfile htext]

/-- If only one of several files has anything, all together have what it has. -/
theorem flatMap_of_forall_ne (files : List Path) (hnodup : files.Nodup) (file : Path)
    (hfile : file ∈ files) (f : Path → List α) (h : ∀ other ∈ files, other ≠ file → f other = []) :
    files.flatMap f = f file := by
  obtain ⟨before, after, rfl⟩ := append_of_mem hfile
  have hbefore : before.flatMap f = [] := by
    rw [flatMap_eq_nil_iff]
    intro other hother
    refine h other (mem_append_left _ hother) ?_
    rintro rfl
    exact disjoint_of_nodup_append hnodup hother mem_cons_self
  have hafter : after.flatMap f = [] := by
    rw [flatMap_eq_nil_iff]
    intro other hother
    refine h other (mem_append_right _ (mem_cons_of_mem file hother)) ?_
    rintro rfl
    exact (nodup_cons.mp (List.Nodup.of_append_right hnodup)).1 hother
  rw [flatMap_append, flatMap_cons, hbefore, hafter, nil_append, append_nil]

/-- One stage: what unclaimed candidates hold is classified. -/
theorem Claims.classified (h : Claims p claimed taken)
    (hlisted : Candidates.WellListed p candidates)
    (hpath : ∀ file, ∀ x ∈ found file, filePath x = file.toString)
    (hitems : items.Perm ((candidates.filter (!claimed.contains ·)).flatMap found)) :
    Classified filePath candidates found taken items := by
  have hfree (file : Path) : file ∈ candidates.filter (!claimed.contains ·) ↔
      file ∈ candidates ∧ file.toString ∉ taken := by
    rw [mem_filter]
    refine and_congr_right fun hfile => ?_
    rw [← h.mem_iff file (hlisted.hasBelow file hfile)]
    simp
  refine ⟨fun path => ?_, fun file hfile hnot => ?_⟩
  · rw [(hitems.map filePath).mem_iff]
    simp only [mem_map, mem_flatMap, hfree]
    constructor
    · rintro ⟨x, ⟨file, ⟨hfile, hnot⟩, hx⟩, rfl⟩
      rw [hpath file x hx]
      exact ⟨hnot, file, hfile, rfl, ne_nil_of_mem hx⟩
    · rintro ⟨hnot, file, hfile, rfl, hne⟩
      obtain ⟨x, hx⟩ := exists_mem_of_ne_nil _ hne
      exact ⟨x, ⟨file, ⟨hfile, hnot⟩, hx⟩, hpath file x hx⟩
  · -- Another candidate has another path text, so nothing found in it has the path of `file`.
    have hown (other : Path) (hother : other ∈ candidates.filter (!claimed.contains ·))
        (hne : other ≠ file) : (found other).filter (filePath · == file.toString) = [] := by
      rw [filter_eq_nil_iff]
      intro x hx htext
      rw [beq_iff_eq, hpath other x hx] at htext
      exact hne (Project.HasBelow.eq_of_toString p other file
        (hlisted.hasBelow other ((hfree other).mp hother).1) (hlisted.hasBelow file hfile) htext)
    have hall : (found file).filter (filePath · == file.toString) = found file := by
      rw [filter_eq_self]
      intro x hx
      rw [hpath file x hx, beq_self_eq_true]
    refine (hitems.filter _).trans (List.Perm.of_eq ?_)
    rw [filter_flatMap, flatMap_of_forall_ne _ (hlisted.nodup.filter _) file
      ((hfree file).mpr ⟨hfile, hnot⟩) _ hown, hall]

/-- After a stage the files that hold something are claimed too. -/
theorem Claims.append (h : Claims p claimed taken) (hlisted : Candidates.WellListed p candidates)
    (hclassified : Classified filePath candidates found taken items) (next : List Path)
    (hnext : ∀ file, file ∈ next ↔ file ∈ candidates ∧ file ∉ claimed ∧ found file ≠ []) :
    Claims p (claimed ++ next) (taken ++ items.map filePath) where
  hasBelow file hfile := by
    rcases mem_append.mp hfile with hclaimed | hfile
    · exact h.hasBelow file hclaimed
    · exact hlisted.hasBelow file ((hnext file).mp hfile).1
  mem_taken_iff path := by
    rw [mem_append, hclassified.mem_paths_iff]
    constructor
    · rintro (htaken | ⟨hnot, file, hfile, rfl, hne⟩)
      · obtain ⟨file, hfile, rfl⟩ := (h.mem_taken_iff path).mp htaken
        exact ⟨file, mem_append_left _ hfile, rfl⟩
      · have hunclaimed : file ∉ claimed := by
          rwa [h.mem_iff file (hlisted.hasBelow file hfile)]
        exact ⟨file, mem_append_right _ ((hnext file).mpr ⟨hfile, hunclaimed, hne⟩), rfl⟩
    · rintro ⟨file, hfile, rfl⟩
      rcases mem_append.mp hfile with hclaimed | hfile
      · exact Or.inl ((h.mem_taken_iff _).mpr ⟨file, hclaimed, rfl⟩)
      · obtain ⟨hcandidate, hunclaimed, hne⟩ := (hnext file).mp hfile
        rw [h.mem_iff file (hlisted.hasBelow file hcandidate)] at hunclaimed
        exact Or.inr ⟨hunclaimed, file, hcandidate, rfl, hne⟩

/-- One stage as a whole, for a kind with a given test. -/
theorem Claims.stage {β : Type} (test : Path → Option β) (items : List α)
    (h : Claims p claimed taken) (hlisted : Candidates.WellListed p candidates)
    (htest : ∀ file, (test file).isSome ↔ found file ≠ [])
    (hpath : ∀ file, ∀ x ∈ found file, filePath x = file.toString)
    (hitems : items.Perm ((candidates.filter (!claimed.contains ·)).flatMap found)) :
    Classified filePath candidates found taken items ∧ Claims p (claimed ++ (Assignment.qualify test
        (candidates.filter (!claimed.contains ·))).map (·.1)) (taken ++ items.map filePath) := by
  have hclassified := h.classified hlisted hpath hitems
  refine ⟨hclassified, h.append hlisted hclassified _ fun file => ?_⟩
  rw [Assignment.map_fst_qualify, mem_filter, mem_filter, htest, and_assoc]
  simp

end Stage

namespace Assignment

variable {α : Type} (files : List Path)

/-- What qualifies, if a file holds at most one entity. -/
theorem map_snd_qualify (test : Path → Option α) :
    (qualify test files).map (·.2) = files.flatMap fun file => (test file).toList := by
  rw [qualify, map_filterMap, filterMap_eq_flatMap_toList]
  congr 1
  funext file
  cases test file <;> rfl

/-- What qualifies, if a file may hold several entities. -/
theorem flatMap_snd_qualify (found : Path → List α) :
    (qualify (fun file => nonempty? (found file)) files).flatMap (·.2) = files.flatMap found := by
  rw [qualify, filterMap_eq_flatMap_toList, flatMap_assoc]
  congr 1
  funext file
  cases hfound : found file <;> simp [nonempty?]

/-- A list that is not empty is one. -/
theorem isSome_nonempty? (items : List α) : (nonempty? items).isSome ↔ items ≠ [] := by
  cases items <;> simp [nonempty?]

end Assignment

namespace Classify

variable (facts : FactTable) (file : Path)

/-- A component has the path of its file. -/
theorem filePath_component (x : Component) (hx : x ∈ (component? facts file).toList) :
    x.filePath = file.toString := by
  rw [Option.mem_toList, component?] at hx
  split at hx
  · cases hx
  · split at hx
    · cases hx
    · cases hx
      rfl

/-- A hook has the path of its file. -/
theorem filePath_hooks (x : Hook) (hx : x ∈ hooks facts file) : x.filePath = file.toString := by
  rw [hooks] at hx
  split at hx
  · cases hx
  · obtain ⟨name, -, rfl⟩ := mem_map.mp hx
    rfl

/-- A context has the path of its file. -/
theorem filePath_contexts (x : Context) (hx : x ∈ contexts facts file) :
    x.filePath = file.toString := by
  rw [contexts] at hx
  split at hx
  · cases hx
  · split at hx
    · cases hx
    · obtain ⟨name, -, rfl⟩ := mem_map.mp hx
      rfl

/-- A utility has the path of its file. -/
theorem filePath_utility (x : Utility) (hx : x ∈ (utility? facts file).toList) :
    x.filePath = file.toString := by
  rw [Option.mem_toList, utility?] at hx
  split at hx
  · cases hx
  · split at hx
    · cases hx
    · dsimp only at hx
      split at hx
      · cases hx
      · cases hx
        rfl

end Classify

namespace Catalog

/-- The four kinds, with the paths of the kinds before taken. -/
structure KindsClassified (p : Project) (facts : FactTable) (c : Catalog) : Prop where
  components : Classified Component.filePath (Candidates.components p)
    (fun file => (Classify.component? facts file).toList) [] c.components
  hooks : Classified Hook.filePath (Candidates.hooks p) (Classify.hooks facts)
    (c.components.map (·.filePath)) c.hooks
  contexts : Classified Context.filePath (Candidates.contexts p) (Classify.contexts facts)
    (c.components.map (·.filePath) ++ c.hooks.map (·.filePath)) c.contexts
  utilities : Classified Utility.filePath (Candidates.utilities p)
    (fun file => (Classify.utility? facts file).toList)
    (c.components.map (·.filePath) ++ c.hooks.map (·.filePath) ++ c.contexts.map (·.filePath))
    c.utilities

/-- The four stages follow each other. -/
theorem kindsClassified_ofFacts (p : Project) (h : p.tree.PlainNames) (pages : List PageCandidate)
    (facts : FactTable) (framework : Framework) (router : Router) :
    KindsClassified p facts (ofFacts p pages facts framework router) := by
  have hall : (Candidates.components p).filter (!([] : List Path).contains ·) =
      Candidates.components p := by simp
  have hone (α : Type) (found : Option α) : found.isSome ↔ found.toList ≠ [] := by
    cases found <;> simp
  let c := ofFacts p pages facts framework router
  obtain ⟨hcomponents, hclaims⟩ := (claims_nil p).stage (Classify.component? facts) c.components
    (Candidates.wellListed_components p h) (fun file => hone _ _)
    (Classify.filePath_component facts) (by
      rw [hall, ← Assignment.map_snd_qualify]
      exact mergeSort_perm _ _)
  rw [hall, nil_append, nil_append] at hclaims
  obtain ⟨hhooks, hclaims⟩ := hclaims.stage
    (fun file => Assignment.nonempty? (Classify.hooks facts file)) c.hooks
    (Candidates.wellListed_hooks p h) (fun file => Assignment.isSome_nonempty? _)
    (Classify.filePath_hooks facts) (by
      rw [← Assignment.flatMap_snd_qualify]
      exact mergeSort_perm _ _)
  obtain ⟨hcontexts, hclaims⟩ := hclaims.stage
    (fun file => Assignment.nonempty? (Classify.contexts facts file)) c.contexts
    (Candidates.wellListed_contexts p h) (fun file => Assignment.isSome_nonempty? _)
    (Classify.filePath_contexts facts) (by
      rw [← Assignment.flatMap_snd_qualify]
      exact mergeSort_perm _ _)
  refine ⟨hcomponents, hhooks, hcontexts, hclaims.classified (Candidates.wellListed_utilities p h)
    (Classify.filePath_utility facts) ?_⟩
  rw [← Assignment.map_snd_qualify]
  exact mergeSort_perm _ _

/-- The kinds share no path. -/
theorem KindsClassified.pairwise_disjoint {p : Project} {facts : FactTable} {c : Catalog}
    (h : KindsClassified p facts c) :
    [c.components.map (·.filePath), c.hooks.map (·.filePath), c.contexts.map (·.filePath),
      c.utilities.map (·.filePath)].Pairwise List.Disjoint := by
  have hhooks := h.hooks.disjoint
  have hcontexts := disjoint_append_left.mp h.contexts.disjoint
  have hutilities := disjoint_append_left.mp h.utilities.disjoint
  have hearlier := disjoint_append_left.mp hutilities.1
  simp [hhooks, hcontexts, hutilities.2, hearlier]

/-- A catalog is built from pages and the facts it needs. -/
theorem build_eq_ok [Host] {p : Project} {schedule : Schedule} {framework : Framework}
    {router : Router} {c : Catalog} (h : build p schedule framework router = .ok c) :
    ∃ pages, p.pages router = .ok pages ∧
      ofFacts p pages (FactTable.load p.tree schedule [] (neededFiles p pages)) framework router =
        c := by
  unfold build at h
  cases hpages : p.pages router with
  | error e =>
    rw [hpages] at h
    cases h
  | ok pages =>
    rw [hpages] at h
    exact ⟨pages, rfl, Except.ok.inj h⟩

end Catalog

/-- In the catalog of a project every file has the first kind that it qualifies for and no other; if
all files were read, by its own text. -/
theorem build_classifies [Host] (p : Project) (hplain : p.tree.PlainNames) (schedule : Schedule)
    (framework : Framework) (router : Router) (c : Catalog)
    (h : Catalog.build p schedule framework router = .ok c) : ∃ pages, p.pages router = .ok pages ∧
      (schedule.Complete → ∀ file ∈ Candidates.components p ++ Candidates.hooks p ++
        Candidates.contexts p ++ Candidates.utilities p,
        (FactTable.load p.tree schedule [] (Catalog.neededFiles p pages)).fact? file =
          FactTable.extract? p.tree file) ∧
      c.KindsClassified p (FactTable.load p.tree schedule [] (Catalog.neededFiles p pages)) ∧
      [c.components.map (·.filePath), c.hooks.map (·.filePath), c.contexts.map (·.filePath),
        c.utilities.map (·.filePath)].Pairwise List.Disjoint ∧
      (c.components.map (·.filePath)).Nodup ∧ (c.utilities.map (·.filePath)).Nodup ∧
      InPathOrder Component.filePath Component.name c.components ∧
      InPathOrder Hook.filePath Hook.name c.hooks ∧
      InPathOrder Context.filePath Context.name c.contexts ∧
      InPathOrder Utility.filePath Utility.name c.utilities := by
  obtain ⟨pages, hpages, rfl⟩ := Catalog.build_eq_ok h
  have hkinds := Catalog.kindsClassified_ofFacts p hplain pages
    (FactTable.load p.tree schedule [] (Catalog.neededFiles p pages)) framework router
  have hone (α : Type) (found : Option α) : found.toList.length ≤ 1 := by
    cases found <;> simp
  have hutilities := hkinds.utilities.nodup_paths fun file => hone _ _
  refine ⟨pages, hpages, ?_, hkinds, hkinds.pairwise_disjoint,
    hkinds.components.nodup_paths fun file => hone _ _, hutilities, inPathOrder_sortByPair _ _ _,
    inPathOrder_sortByPair _ _ _, inPathOrder_sortByPair _ _ _,
    inPathOrder_sortByText _ _ _ hutilities⟩
  intro hcomplete file hfile
  have hneeded : file ∈ Catalog.neededFiles p pages := by
    simp only [List.mem_append] at hfile
    simp only [Catalog.neededFiles, List.mem_append]
    rcases hfile with ((hfile | hfile) | hfile) | hfile <;> simp only [hfile, true_or, or_true]
  rw [FactTable.fact?_load p.tree schedule hcomplete, if_pos hneeded]
  rfl

/-- A project with one file of both a hook and a context. -/
def cartProject : Project where
  tree :=
    { files := [(["cart", "lib", "hookTotal.ts"],
        "export const useTotal = createContext(0)".toUTF8.toList)]
      directories := [] }
  root := ⟨.slash, ["cart"]⟩
  ignored := []

/-- The only source file. -/
def cartFile : Path :=
  ⟨.slash, ["cart", "lib", "hookTotal.ts"]⟩

/-- The facts of the cart project. -/
def cartFacts : FactTable :=
  FactTable.load cartProject.tree (.inOrder 2) []
    (Catalog.neededFiles cartProject cartProject.filePages)

/-- The catalog of the project, before it is linked. -/
def cartCatalog : Catalog :=
  Catalog.ofFacts cartProject cartProject.filePages cartFacts .unknown .nextjsPages

/-- The file is a candidate of both kinds. -/
theorem cartFile_mem_candidates : cartFile ∈ Candidates.hooks cartProject ∧
    cartFile ∈ Candidates.contexts cartProject := by
  have hlisted (rule : Tree.ListingRule) (htakes : rule.takes ["hookTotal.ts"] = true) :
      cartFile ∈ cartProject.tree.sourceFiles (cartProject.root / "lib") rule :=
    (Tree.mem_sourceFiles_iff (by simp [Tree.GoesDown, cartProject]) _ rule cartFile).mpr
      ⟨["hookTotal.ts"], rfl, by simp, by decide +kernel, htakes⟩
  have hnamed : cartFile ∈ Candidates.named cartProject ["lib", "src/lib"]
      Candidates.suggestsHook :=
    List.mem_filter.mpr ⟨(mem_unique _ _).mpr (List.mem_flatMap.mpr
      ⟨"lib", by simp, hlisted _ (by decide +kernel)⟩), by decide +kernel⟩
  have hbelow : cartFile ∈ Candidates.below cartProject Candidates.contextDirectories :=
    (mem_unique _ _).mpr (List.mem_flatMap.mpr ⟨"lib", by decide, hlisted _ (by decide +kernel)⟩)
  exact ⟨Candidates.mem_followedBy.mpr (.inr hnamed), Candidates.mem_followedBy.mpr (.inl hbelow)⟩

attribute [local instance] Host.usual

/-- The file holds hooks and contexts, and counts as hooks. -/
theorem build_classifies_cartProject : cartProject.tree.PlainNames ∧
    Catalog.build cartProject (.inOrder 2) .unknown .nextjsPages = .ok cartCatalog ∧
    cartFile ∈ Candidates.contexts cartProject ∧ Classify.contexts cartFacts cartFile ≠ [] ∧
    cartFile.toString ∈ cartCatalog.hooks.map (·.filePath) ∧
    cartFile.toString ∉ cartCatalog.contexts.map (·.filePath) := by
  have hplain : cartProject.tree.PlainNames := by
    simp only [Tree.PlainNames, SlashFree]
    decide
  obtain ⟨hhook, hcontext⟩ := cartFile_mem_candidates
  obtain ⟨pages, hpages, hfacts, hkinds, -⟩ := build_classifies cartProject hplain
    (.inOrder 2) .unknown .nextjsPages cartCatalog rfl
  obtain rfl : cartProject.filePages = pages := Except.ok.inj hpages
  have htext : cartProject.tree.readText? cartFile =
      some "export const useTotal = createContext(0)".toList := by decide +kernel
  have hfact : cartFacts.fact? cartFile =
      some (.ofContent "export const useTotal = createContext(0)".toList) := by
    rw [cartFacts, hfacts (fun n => List.Perm.refl _) cartFile (by simp [hhook]),
      FactTable.extract?, htext]
    rfl
  have hhooks : Classify.hooks cartFacts cartFile ≠ [] := by
    rw [← List.isEmpty_eq_false_iff, Classify.hooks, hfact]
    decide +kernel
  have hcontexts : Classify.contexts cartFacts cartFile ≠ [] := by
    rw [← List.isEmpty_eq_false_iff, Classify.contexts, hfact]
    decide +kernel
  have hfree : cartFile.toString ∉ cartCatalog.components.map (·.filePath) := by
    rw [hkinds.components.mem_paths_iff]
    have hnone : Candidates.components cartProject = [] := by decide +kernel
    simp [hnone]
  have hmem : cartFile.toString ∈ cartCatalog.hooks.map (·.filePath) :=
    (hkinds.hooks.mem_paths_iff _).mpr ⟨hfree, cartFile, hhook, rfl, hhooks⟩
  refine ⟨hplain, rfl, hcontext, hcontexts, hmem, ?_⟩
  intro htwice
  exact ((hkinds.contexts.mem_paths_iff _).mp htwice).1 (List.mem_append_right _ hmem)

end SiteAtlas
