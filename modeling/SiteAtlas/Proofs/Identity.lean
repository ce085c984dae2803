import SiteAtlas.Proofs.BackReferences
import SiteAtlas.Proofs.Classification
import SiteAtlas.Proofs.PageIdentity
import Mathlib.Data.List.Permutation

/-!
# Every entity has an identifier of its own

Identifiers begin with the label of a kind, and within a kind they give the file away: they end in
the path, after a name without slashes or the route of a page file. A file is catalogued once for a
kind, except for hooks or contexts of different names. So where pages are files, every entity has
its own identifier and node.
-/

namespace SiteAtlas

open List

variable {p : Project} {α : Type} {candidates : List Path} {taken : List String}

/-- A word character is no slash. -/
theorem Text.ne_slash_of_isWord (x : Char) (h : Text.isWord x = true) : x ≠ '/' := by
  rintro rfl
  exact absurd h (by decide +kernel)

namespace Source.Declared

/-- A hook's name reads no slash. -/
theorem readsOnly_hookName : hookName.ReadsOnly (· ≠ '/') := by
  refine ⟨⟨(Pattern.readsOnly_chars _).mpr (by simp), ?_⟩, Text.ne_slash_of_isWord⟩
  rintro x hx rfl
  exact absurd hx (by decide)

/-- Hooks' names hold no slash. -/
theorem slash_not_mem_hookNames (content : List Char) (name : String)
    (h : name ∈ hookNames content) : '/' ∉ name.toList := by
  obtain ⟨cs, hcs, rfl⟩ := mem_map.mp h
  rw [mem_unique, mem_flatMap] at hcs
  obtain ⟨form, hform, hcs⟩ := hcs
  obtain ⟨m, hm, rfl⟩ := mem_map.mp hcs
  have hname : (Pattern.capture 1 hookName).CapturesOnly (· ≠ '/') :=
    ⟨readsOnly_hookName, Pattern.capturesOnly_of_capturesNothing _ rfl⟩
  have hcaptures : form.CapturesOnly (· ≠ '/') := by
    simp only [hookForms, mem_cons, not_mem_nil, or_false] at hform
    rcases hform with rfl | rfl | rfl
    · exact ⟨Pattern.capturesOnly_of_capturesNothing _ rfl, hname⟩
    · exact ⟨⟨Pattern.capturesOnly_of_capturesNothing _ rfl, hname⟩,
        Pattern.capturesOnly_of_capturesNothing _ rfl⟩
    · exact ⟨Pattern.capturesOnly_of_capturesNothing _ rfl, hname⟩
  rw [String.toList_ofList]
  intro hslash
  exact hcaptures.group form content m hm 1 '/' hslash rfl

end Source.Declared

/-- A stem holds no slash more. -/
theorem slash_not_mem_stemOf (name : String) (h : '/' ∉ name.toList) :
    '/' ∉ (stemOf name).toList := by
  intro hslash
  rw [stemOf, String.toList_ofList] at hslash
  rw [← splitSuffix_append name.toList] at h
  exact h (mem_append_left _ hslash)

/-- The stem of a file holds no slash. -/
theorem Project.HasBelow.slash_not_mem_stem {file : Path} (h : p.HasBelow file) :
    '/' ∉ file.stem.toList := by
  obtain ⟨rest, hne, hfree, rfl⟩ := h
  apply slash_not_mem_stemOf
  rw [Path.name, getLast?_append_of_ne_nil _ hne, getLast?_eq_getLast_of_ne_nil hne]
  exact hfree _ (getLast_mem hne)

namespace Classify

open Source.Declared

variable (facts : FactTable) (file : Path) (hstem : '/' ∉ file.stem.toList)

section
include hstem

/-- A hook's name holds no slash. -/
theorem slash_not_mem_hook (x : Hook) (hx : x ∈ hooks facts file) : '/' ∉ x.name.toList := by
  rw [hooks] at hx
  split at hx
  · cases hx
  · obtain ⟨name, hname, rfl⟩ := mem_map.mp hx
    split at hname
    · split at hname
      · rw [mem_singleton.mp hname]
        exact hstem
      · cases hname
    · exact slash_not_mem_hookNames _ name hname

/-- A context's name holds no slash. -/
theorem slash_not_mem_context (x : Context) (hx : x ∈ contexts facts file) :
    '/' ∉ x.name.toList := by
  rw [contexts] at hx
  split at hx
  · cases hx
  · split at hx
    · cases hx
    · obtain ⟨name, hname, rfl⟩ := mem_map.mp hx
      rw [String.toList_ofList]
      split at hname
      · rw [mem_singleton.mp hname]
        exact hstem
      · rw [mem_unique] at hname
        obtain ⟨m, hm, rfl⟩ := mem_map.mp hname
        have hcaptures : contextDefinition.CapturesOnly (· ≠ '/') :=
          ⟨⟨⟨⟨⟨Pattern.capturesOnly_of_capturesNothing _ rfl,
            Text.ne_slash_of_isWord, Pattern.capturesOnly_of_capturesNothing _ rfl⟩,
            Pattern.capturesOnly_of_capturesNothing _ rfl⟩,
            Pattern.capturesOnly_of_capturesNothing _ rfl⟩,
            Pattern.capturesOnly_of_capturesNothing _ rfl⟩,
            Pattern.capturesOnly_of_capturesNothing _ rfl⟩
        intro hslash
        exact hcaptures.group _ _ m hm 1 '/' hslash rfl

end

/-- The hooks of a file have different names. -/
theorem nodup_hooks : ((hooks facts file).map (·.name)).Nodup := by
  rw [hooks]
  split
  · exact nodup_nil
  · rw [map_map]
    change (List.map id _).Nodup
    rw [map_id]
    split
    · split
      · exact nodup_singleton _
      · exact nodup_nil
    · exact (nodup_unique _).map fun _ _ heq => String.ofList_injective heq

/-- The contexts of a file have different names. -/
theorem nodup_contexts : ((contexts facts file).map (·.name)).Nodup := by
  rw [contexts]
  split
  · exact nodup_nil
  · split
    · exact nodup_nil
    · rw [map_map]
      refine List.Nodup.map (fun _ _ heq => String.ofList_injective heq) ?_
      split
      · exact nodup_singleton _
      · exact nodup_unique _

/-- Facts about a page change neither its route nor its path. -/
theorem page?_keeps (candidate : PageCandidate) (page : Page)
    (h : page? facts candidate = some page) :
    page.route = candidate.page.route ∧ page.filePath = candidate.page.filePath := by
  unfold page? at h
  split at h
  · obtain ⟨fact, -, rfl⟩ := Option.map_eq_some_iff.mp h
    exact ⟨rfl, rfl⟩
  · obtain rfl := Option.some.inj h
    exact ⟨rfl, rfl⟩

/-- A store has the path of its file. -/
theorem filePath_store (x : Store) (h : store? facts file = some x) :
    x.filePath = file.toString := by
  obtain ⟨⟨kind, exports⟩, -, rfl⟩ := Option.map_eq_some_iff.mp h
  rfl

/-- Actions have the relative path. -/
theorem relativePath_serverActions (root : Path) (x : ServerActionFile)
    (h : serverActions? facts root file = some x) :
    x.relativePath = Text.joinStrings "/" ((file.below? root).getD []) := by
  unfold serverActions? at h
  split at h
  · cases h
  · dsimp only at h
    split at h
    · cases h
    · obtain rfl := Option.some.inj h
      rfl

end Classify

/-- Items have different keys if a key tells the part and differs in it. -/
theorem nodup_map_of_parts {β γ : Type} [DecidableEq β] [DecidableEq γ] (items : List α)
    (key : α → β) (part : α → γ) (hpart : ∀ x ∈ items, ∀ y ∈ items, key x = key y → part x = part y)
    (hnodup : ∀ x ∈ items, ((items.filter (part · == part x)).map key).Nodup) :
    (items.map key).Nodup := by
  rw [nodup_iff_count_le_one]
  intro wanted
  by_cases hmem : wanted ∈ items.map key
  · obtain ⟨x, hx, rfl⟩ := mem_map.mp hmem
    have hsame : (items.map key).count (key x) =
        ((items.filter (part · == part x)).map key).count (key x) := by
      simp only [List.count, countP_map, countP_filter]
      refine countP_congr fun y hy => ?_
      simp only [Function.comp_apply, beq_iff_eq, Bool.and_eq_true]
      constructor
      · intro hkey
        exact ⟨hkey, hpart y hy x hx hkey⟩
      · exact And.left
    rw [hsame]
    exact nodup_iff_count_le_one.mp (hnodup x hx) _
  · rw [count_eq_zero_of_not_mem hmem]
    exact Nat.zero_le 1

/-- Entities have different keys if a key tells the path, and differs in each file. -/
theorem Classified.nodup_keys {β : Type} [DecidableEq β] {filePath : α → String}
    {found : Path → List α} {items : List α} (h : Classified filePath candidates found taken items)
    (key : α → β) (hpath : ∀ x ∈ items, ∀ y ∈ items, key x = key y → filePath x = filePath y)
    (hfound : ∀ file ∈ candidates, ((found file).map key).Nodup) : (items.map key).Nodup := by
  refine nodup_map_of_parts items key filePath hpath fun x hx => ?_
  obtain ⟨hfree, file, hfile, htext, -⟩ :=
    (h.mem_paths_iff _).mp (mem_map_of_mem (f := filePath) hx)
  rw [← htext] at hfree ⊢
  rw [((h.exact file hfile hfree).map key).nodup_iff]
  exact hfound file hfile

/-- An entity was found in the candidate of its path. -/
theorem Classified.exists_mem_found {filePath : α → String} {found : Path → List α} {items : List α}
    (h : Classified filePath candidates found taken items) (x : α) (hx : x ∈ items) :
    ∃ file ∈ candidates, filePath x = file.toString ∧ x ∈ found file := by
  obtain ⟨hfree, file, hfile, htext, -⟩ :=
    (h.mem_paths_iff _).mp (mem_map_of_mem (f := filePath) hx)
  refine ⟨file, hfile, htext.symm, ?_⟩
  rw [← (h.exact file hfile (htext ▸ hfree)).mem_iff, mem_filter, htext, beq_self_eq_true]
  exact ⟨hx, rfl⟩

/-- A path below an absolute root begins with a slash. -/
theorem Project.HasBelow.begins_with_slash {file : Path} (h : p.HasBelow file)
    (hroot : p.root.isAbsolute = true) : ∃ rest, file.toString.toList = '/' :: rest := by
  obtain ⟨names, -, -, rfl⟩ := h
  exact Path.begins_with_slash _ hroot

/-- Entities by name and path have different identifiers if names hold no slash and differ within a
file. -/
theorem Classified.nodup_named {name filePath : α → String} {found : Path → List α} {items : List α}
    (h : Classified filePath candidates found taken items)
    (hlisted : Candidates.WellListed p candidates) (hroot : p.root.isAbsolute = true)
    (hslash : ∀ file ∈ candidates, ∀ x ∈ found file, '/' ∉ (name x).toList)
    (hnames : ∀ file ∈ candidates, ((found file).map name).Nodup) (id : α → String) (label : String)
    (hid : ∀ x, id x = label ++ name x ++ "@" ++ filePath x) : (items.map id).Nodup := by
  have hparts (x : α) (hx : x ∈ items) :
      '/' ∉ (name x).toList ∧ ∃ rest, (filePath x).toList = '/' :: rest := by
    obtain ⟨file, hfile, htext, hmem⟩ := h.exists_mem_found x hx
    refine ⟨hslash file hfile x hmem, ?_⟩
    rw [htext]
    exact (hlisted.hasBelow file hfile).begins_with_slash hroot
  have hsplit (x y : α) (hx : x ∈ items) (hy : y ∈ items) (heq : id x = id y) :
      name x = name y ∧ filePath x = filePath y := by
    obtain ⟨hname, hpath⟩ := hparts x hx
    obtain ⟨hother, hotherPath⟩ := hparts y hy
    have hfree (text : List Char) (htext : '/' ∉ text) : ¬ ['@', '/'] <:+: text :=
      fun hheld => htext (hheld.subset (by simp))
    have hchars := congrArg String.toList heq
    simp only [hid, String.toList_append, append_assoc, append_cancel_left_eq] at hchars
    obtain ⟨hsame, hplace⟩ := Text.eq_of_append_sign_eq _ _ _ _ (hfree _ hname) (hfree _ hother)
      hpath hotherPath hchars
    exact ⟨String.toList_inj.mp hsame, String.toList_inj.mp hplace⟩
  have hpairs : (items.map fun x => (name x, filePath x)).Nodup := by
    refine h.nodup_keys _ (fun x _ y _ heq => (Prod.mk.inj heq).2) fun file hfile => ?_
    refine List.Nodup.of_map Prod.fst ?_
    rw [map_map]
    exact hnames file hfile
  refine List.Nodup.map_on ?_ hpairs.of_map
  intro x hx y hy heq
  obtain ⟨hname, hpath⟩ := hsplit x y hx hy heq
  exact inj_on_of_nodup_map hpairs hx hy (Prod.ext hname hpath)

/-- Entities by path have different identifiers if paths differ. -/
theorem nodup_labelled (items : List α) (path id : α → String) (label : String)
    (hid : ∀ x, id x = label ++ path x) (h : (items.map path).Nodup) : (items.map id).Nodup := by
  have hids : items.map id = (items.map path).map (label ++ ·) := by
    rw [map_map]
    exact map_congr_left fun x _ => hid x
  rw [hids]
  exact h.map fun _ _ heq => (String.append_right_inj label).mp heq

namespace Candidates

/-- Store candidates are well listed. -/
theorem wellListed_stores (p : Project) (h : p.tree.PlainNames) : WellListed p (stores p) :=
  ((wellListed_unique p h storeDirectories (by decide) _).filter _).followedBy
    ((wellListed_unique p h _ (by decide) _).filter _)

/-- Well listed candidates have different path texts. -/
theorem WellListed.nodup_toString {files : List Path} (h : WellListed p files) :
    (files.map Path.toString).Nodup := by
  refine List.Nodup.map_on ?_ h.nodup
  intro file hfile other hother
  exact Project.HasBelow.eq_of_toString p file other (h.hasBelow file hfile)
    (h.hasBelow other hother)

/-- All source files have different relative path texts. -/
theorem nodup_relativePaths (p : Project) (hplain : p.tree.PlainNames)
    (hdistinct : p.tree.Distinct) :
    ((all p).map fun file => Text.joinStrings "/" ((file.below? p.root).getD [])).Nodup := by
  refine List.Nodup.map_on ?_ (p.tree.nodup_sourceFiles hdistinct p.root _)
  intro file hfile other hother heq
  obtain ⟨names, hne, hfree, rfl⟩ := p.tree.mem_sourceFiles hplain _ _ file hfile
  obtain ⟨others, hotherNe, hotherFree, rfl⟩ := p.tree.mem_sourceFiles hplain _ _ other hother
  rw [Path.below?_append, Path.below?_append] at heq
  rw [Text.joinStrings_append_inj [] names others hfree hotherFree hne hotherNe heq]

end Candidates

namespace Catalog

/-- All identifiers differ if those of each kind do. -/
theorem distinctIds_of_kinds (c : Catalog) (hpages : (c.pages.map Page.id).Nodup)
    (hcomponents : (c.components.map Component.id).Nodup) (hhooks : (c.hooks.map Hook.id).Nodup)
    (hcontexts : (c.contexts.map Context.id).Nodup)
    (hutilities : (c.utilities.map Utility.id).Nodup) (hstores : (c.stores.map Store.id).Nodup)
    (hactions : (c.serverActionFiles.map ServerActionFile.id).Nodup) : c.DistinctIds := by
  refine nodup_map_of_parts c.entities Entity.id Entity.label
    (fun x _ y _ => x.label_eq_of_id_eq y) fun x _ => ?_
  cases x <;> simpa [entities, filter_map, Function.comp_def, Entity.label, Entity.id]

/-- Pages that are files have different identifiers. -/
theorem nodup_pages (p : Project) (facts : FactTable) (framework : Framework) (router : Router)
    (candidates : List PageCandidate) (area : String) (harea : RouteArea area)
    (h : RoutedPages p.root.beginning area router candidates) :
    ((ofFacts p candidates facts framework router).pages.map Page.id).Nodup := by
  have hperm : (ofFacts p candidates facts framework router).pages.Perm
      (candidates.filterMap (Classify.page? facts)) := mergeSort_perm _ _
  rw [(hperm.map Page.id).nodup_iff]
  have hpaths : ((candidates.filterMap (Classify.page? facts)).map Page.filePath).Nodup :=
    nodup_map_filterMap candidates _ _ _ h.nodup fun candidate _ page hpage =>
      (Classify.page?_keeps facts candidate page hpage).2
  have hrouted (page : Page) (hpage : page ∈ candidates.filterMap (Classify.page? facts)) :
      page.IsRouted p.root.beginning area router := by
    obtain ⟨candidate, hcandidate, hpage⟩ := mem_filterMap.mp hpage
    obtain ⟨hroute, hpath⟩ := Classify.page?_keeps facts candidate page hpage
    rw [Page.IsRouted, hroute, hpath]
    exact h.routed candidate hcandidate
  refine List.Nodup.map_on ?_ hpaths.of_map
  intro page hpage other hother heq
  exact inj_on_of_nodup_map hpaths hpage hother
    ((hrouted page hpage).filePath_eq (hrouted other hother) harea heq)

/-- Stores have different identifiers. -/
theorem nodup_stores (p : Project) (hplain : p.tree.PlainNames) (candidates : List PageCandidate)
    (facts : FactTable) (framework : Framework) (router : Router) :
    ((ofFacts p candidates facts framework router).stores.map Store.id).Nodup := by
  have hperm : (ofFacts p candidates facts framework router).stores.Perm
      ((Candidates.stores p).filterMap (Classify.store? facts)) := mergeSort_perm _ _
  refine nodup_labelled _ Store.filePath _ "store:" (fun _ => rfl) ?_
  rw [(hperm.map Store.filePath).nodup_iff]
  exact nodup_map_filterMap _ _ _ _ (Candidates.wellListed_stores p hplain).nodup_toString
    fun file _ x hx => Classify.filePath_store facts file x hx

/-- Action files have their own paths. -/
theorem nodup_serverActionFiles (p : Project) (hplain : p.tree.PlainNames)
    (hdistinct : p.tree.Distinct) (candidates : List PageCandidate) (facts : FactTable)
    (framework : Framework) (router : Router) :
    ((ofFacts p candidates facts framework router).serverActionFiles.map
      ServerActionFile.id).Nodup := by
  have hperm : (ofFacts p candidates facts framework router).serverActionFiles.Perm
      ((Candidates.all p).filterMap (Classify.serverActions? facts p.root)) :=
    mergeSort_perm _ _
  refine nodup_labelled _ ServerActionFile.relativePath _ "action:" (fun _ => rfl) ?_
  rw [(hperm.map ServerActionFile.relativePath).nodup_iff]
  exact nodup_map_filterMap _ _ _ _ (Candidates.nodup_relativePaths p hplain hdistinct)
    fun file _ x hx => Classify.relativePath_serverActions facts file p.root x hx

end Catalog

/-- A key that a table lacks gets its value at the end. -/
theorem Keyed.put_of_not_mem (table : Keyed α) (key : String) (value : α)
    (h : key ∉ table.map (·.1)) : table.put key value = table ++ [(key, value)] := by
  induction table with
  | nil => rfl
  | cons entry rest ih =>
    rw [map_cons, mem_cons, not_or] at h
    rw [Keyed.put, if_neg (Ne.symm h.1), ih h.2]
    rfl

/-- Values under different keys are written one after the other. -/
theorem Keyed.foldl_put_of_nodup {β : Type} (key : β → String) (value : β → α) (items : List β)
    (table : Keyed α) (h : (table.map (·.1) ++ items.map key).Nodup) :
    items.foldl (fun table b => table.put (key b) (value b)) table =
      table ++ items.map fun b => (key b, value b) := by
  induction items generalizing table with
  | nil => simp
  | cons b rest ih =>
    have hfresh : key b ∉ table.map (·.1) := by
      intro hmem
      exact disjoint_of_nodup_append h hmem mem_cons_self
    rw [foldl_cons, Keyed.put_of_not_mem table _ _ hfresh, ih]
    · simp
    · simpa using h

/-- If all identifiers differ, every entity has its own node. -/
theorem Catalog.DistinctIds.nodes_eq {c : Catalog} (h : c.DistinctIds) :
    c.nodes = c.entities.map fun e => (e.id, Node.ofEntity e) :=
  Keyed.foldl_put_of_nodup Entity.id Node.ofEntity c.entities [] h

/-- Where pages are files, a catalog is built, its identifiers differ, and each entity has one node.
-/
theorem build_distinctIds [Host] (p : Project) (hplain : p.tree.PlainNames)
    (hdistinct : p.tree.Distinct)
    (hroot : p.root.isAbsolute = true) (schedule : Schedule) (framework : Framework)
    (router : Router) (hrouter : router = .nextjsApp ∨ router = .nextjsPages) :
    ∃ c, Catalog.build p schedule framework router = .ok c ∧ c.DistinctIds ∧
      c.nodes = c.entities.map fun e => (e.id, Node.ofEntity e) := by
  obtain ⟨candidates, area, hpages, harea, hrouted⟩ :=
    p.exists_routedPages hplain hdistinct router hrouter
  let facts := FactTable.load p.tree schedule [] (Catalog.neededFiles p candidates)
  let c := Catalog.ofFacts p candidates facts framework router
  have hbuild : Catalog.build p schedule framework router = .ok c := by
    rw [Catalog.build, hpages]
    rfl
  have hkinds : c.KindsClassified p facts := Catalog.kindsClassified_ofFacts p hplain _ _ _ _
  have hone (α : Type) (found : Option α) : found.toList.length ≤ 1 := by
    cases found <;> simp
  have hids : c.DistinctIds := c.distinctIds_of_kinds
    (Catalog.nodup_pages p facts framework router candidates area harea hrouted)
    (nodup_labelled _ _ _ _ (fun _ => rfl) (hkinds.components.nodup_paths fun _ => hone _ _))
    (hkinds.hooks.nodup_named (Candidates.wellListed_hooks p hplain) hroot
      (fun file hfile => Classify.slash_not_mem_hook facts file
        ((Candidates.wellListed_hooks p hplain).hasBelow file hfile).slash_not_mem_stem)
      (fun file _ => Classify.nodup_hooks facts file) _ "hook:" fun _ => rfl)
    (hkinds.contexts.nodup_named (Candidates.wellListed_contexts p hplain) hroot
      (fun file hfile => Classify.slash_not_mem_context facts file
        ((Candidates.wellListed_contexts p hplain).hasBelow file hfile).slash_not_mem_stem)
      (fun file _ => Classify.nodup_contexts facts file) _ "context:" fun _ => rfl)
    (nodup_labelled _ _ _ _ (fun _ => rfl) (hkinds.utilities.nodup_paths fun _ => hone _ _))
    (Catalog.nodup_stores p hplain candidates facts framework router)
    (Catalog.nodup_serverActionFiles p hplain hdistinct candidates facts framework router)
  exact ⟨c, hbuild, hids, hids.nodes_eq⟩

/-- A project in which one page's path holds the other's. -/
def signProject : Project where
  tree :=
    { files := [(["r", "pages", "@", "r", "pages", "index.tsx"], []),
        (["r", "pages", "index.tsx"], [])]
      directories := [] }
  root := ⟨.slash, ["r"]⟩
  ignored := []

/-- The identifiers of both pages. -/
theorem ids_filePages_signProject : signProject.filePages.map (·.page.id) =
    ["page:/@/r/pages@/r/pages/@/r/pages/index.tsx", "page:/@/r/pages/index.tsx"] := by cbv

attribute [local instance] Host.usual

/-- Of the two pages, one identifier ends in the other's path, and still each entity has its node.
-/
theorem build_distinctIds_signProject : signProject.tree.PlainNames ∧ signProject.tree.Distinct ∧
      signProject.root.isAbsolute = true ∧ signProject.filePages.map (·.page.id) =
        ["page:/@/r/pages@/r/pages/@/r/pages/index.tsx", "page:/@/r/pages/index.tsx"] ∧
      ∃ c, Catalog.build signProject (.inOrder 2) .nextjs .nextjsPages = .ok c ∧ c.DistinctIds ∧
        c.nodes = c.entities.map fun e => (e.id, Node.ofEntity e) := by
  have hplain : signProject.tree.PlainNames := by
    simp only [Tree.PlainNames, SlashFree]
    decide
  have hdistinct : signProject.tree.Distinct := by
    unfold Tree.Distinct
    decide
  exact ⟨hplain, hdistinct, rfl, ids_filePages_signProject,
    build_distinctIds signProject hplain hdistinct rfl (.inOrder 2) .nextjs .nextjsPages
      (Or.inr rfl)⟩

end SiteAtlas
