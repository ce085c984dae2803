import SiteAtlas.Proofs.BackReferences
import SiteAtlas.Proofs.Relinking

/-!
# References to server actions

Linking notes a function of a server action file once, and draws an edge to the file. If files have
their own paths and nothing was noted before, a component has references to exactly the functions
that it calls, and edges to exactly their files.
-/

namespace SiteAtlas

open List

variable (refs : List ServerActionRef) (more : List ActionReference) (r : ActionReference)

/-- The reference that is noted for a function of a server action file. -/
def ActionReference.ref (r : ActionReference) : ServerActionRef :=
  ⟨r.function, r.action.relativePath, r.action.filePath⟩

/-- What references are told apart by: the function and the file. -/
def ServerActionRef.key (ref : ServerActionRef) : String × String :=
  (ref.functionName, ref.sourceFilePath)

/-- A function is noted if some reference has its key. -/
theorem hasAction_iff : hasAction refs r = true ↔ r.ref.key ∈ refs.map ServerActionRef.key := by
  simp [hasAction, ServerActionRef.key, ActionReference.ref]

/-- One more reference repeats no key. -/
theorem nodup_keys_addAction (h : (refs.map ServerActionRef.key).Nodup) :
    ((addAction refs r).map ServerActionRef.key).Nodup := by
  by_cases hnoted : hasAction refs r = true
  · rw [addAction_of_hasAction refs r hnoted]
    exact h
  · rw [addAction_of_not_hasAction refs r hnoted, map_append, map_singleton,
      ← concat_eq_append]
    rw [hasAction_iff] at hnoted
    exact h.concat hnoted

/-- Any number of references repeats no key. -/
theorem nodup_keys_foldl_addAction (h : (refs.map ServerActionRef.key).Nodup) :
    ((more.foldl addAction refs).map ServerActionRef.key).Nodup := by
  induction more generalizing refs with
  | nil => exact h
  | cons r more ih => exact ih _ (nodup_keys_addAction refs r h)

/-- One turn notes at most the offered reference. -/
theorem mem_addAction (ref : ServerActionRef) (h : ref ∈ addAction refs r) :
    ref ∈ refs ∨ ref = r.ref := by
  by_cases hnoted : hasAction refs r = true
  · rw [addAction_of_hasAction refs r hnoted] at h
    exact Or.inl h
  · rw [addAction_of_not_hasAction refs r hnoted, mem_append, mem_singleton] at h
    exact h

/-- Only references that were there or were offered are noted. -/
theorem mem_foldl_addAction (ref : ServerActionRef) (h : ref ∈ more.foldl addAction refs) :
    ref ∈ refs ∨ ∃ r ∈ more, ref = r.ref := by
  induction more generalizing refs with
  | nil => exact Or.inl h
  | cons r more ih =>
    rcases ih _ h with hrefs | ⟨s, hs, rfl⟩
    · rcases mem_addAction refs r ref hrefs with hrefs | rfl
      · exact Or.inl hrefs
      · exact Or.inr ⟨r, mem_cons_self, rfl⟩
    · exact Or.inr ⟨s, mem_cons_of_mem _ hs, rfl⟩

/-- If keys tell references, an empty list notes exactly these. -/
theorem mem_foldl_addAction_nil
    (hkey : ∀ r ∈ more, ∀ s ∈ more, r.ref.key = s.ref.key → r.ref = s.ref) (ref : ServerActionRef) :
    ref ∈ more.foldl addAction [] ↔ ∃ r ∈ more, ref = r.ref := by
  have hsound (ref : ServerActionRef) (h : ref ∈ more.foldl addAction []) :
      ∃ r ∈ more, ref = r.ref :=
    (mem_foldl_addAction [] more ref h).resolve_left not_mem_nil
  refine ⟨hsound ref, ?_⟩
  rintro ⟨r, hr, rfl⟩
  have hnoted := notesOnce_addAction.noted_foldl [] more r hr
  obtain ⟨found, hfound, hsame⟩ := mem_map.mp ((hasAction_iff _ r).mp hnoted)
  -- What is noted under the key of `r` was offered, so it is the reference of `r` itself.
  obtain ⟨s, hs, rfl⟩ := hsound found hfound
  rwa [hkey r hr s hs hsame.symm]

/-- What a component calls is not among what linking adds to it. -/
theorem callsFunction_of_bare (table : AliasTable) (x y : Component) (h : x.bare = y.bare)
    (a : ServerActionFile) (f : String) :
    CallsFunction table x a f ↔ CallsFunction table y a f := by
  have hrecords := congrArg Component.importRecords h
  have hpath := congrArg Component.filePath h
  change x.importRecords = y.importRecords at hrecords
  change x.filePath = y.filePath at hpath
  simp only [CallsFunction, hrecords, hpath]

namespace Catalog

variable {c linked : Catalog} {table : AliasTable}

/-- Linking keeps the action files. -/
theorem serverActionFiles_link [Host] (h : c.link table = .ok linked) :
    linked.serverActionFiles = c.serverActionFiles := by
  obtain ⟨middleware, -, rfl⟩ := (link_eq_ok_iff c table linked).mp h
  rfl

/-- A linked component is an old one but for what linking adds. -/
theorem exists_serverActions_of_mem_linked [Host] (h : c.link table = .ok linked) (x : Component)
    (hx : x ∈ linked.components) : ∃ y ∈ c.components, x.bare = y.bare ∧
      x.serverActions = (actionReferencesOf table c y).foldl addAction y.serverActions := by
  obtain ⟨middleware, -, rfl⟩ := (link_eq_ok_iff c table linked).mp h
  obtain ⟨own, hown, hx⟩ := mem_mapLast _ _ _ _ hx
  obtain ⟨y, hy, rfl⟩ := mem_map.mp hown
  refine ⟨y, hy, ?_⟩
  rcases hx with rfl | rfl
  · exact ⟨rfl, rfl⟩
  · exact ⟨rfl, rfl⟩

/-- If files have their own paths, function and path tell. -/
theorem ref_eq_of_key_eq (hpaths : (c.serverActionFiles.map (·.filePath)).Nodup) (x : Component)
    (r : ActionReference) (hr : r ∈ actionReferencesOf table c x) (s : ActionReference)
    (hs : s ∈ actionReferencesOf table c x) (hkey : r.ref.key = s.ref.key) : r.ref = s.ref := by
  obtain ⟨hfunction, hpath⟩ := Prod.mk.inj hkey
  obtain ⟨hraction, -⟩ := (mem_actionReferencesOf table c x r).mp hr
  obtain ⟨hsaction, -⟩ := (mem_actionReferencesOf table c x s).mp hs
  have haction : r.action = s.action := inj_on_of_nodup_map hpaths hraction hsaction hpath
  change r.function = s.function at hfunction
  rw [ActionReference.ref, haction, hfunction, ActionReference.ref]

/-- Linking notes the references to functions that a component calls. -/
theorem mem_serverActions_link [Host] (h : c.link table = .ok linked)
    (hpaths : (c.serverActionFiles.map (·.filePath)).Nodup)
    (hempty : ∀ x ∈ c.components, x.serverActions = []) (x : Component)
    (hx : x ∈ linked.components) (ref : ServerActionRef) :
    ref ∈ x.serverActions ↔ ∃ a ∈ c.serverActionFiles, ∃ f, CallsFunction table x a f ∧
      ref = ⟨f, a.relativePath, a.filePath⟩ := by
  obtain ⟨y, hy, hbare, hrefs⟩ := exists_serverActions_of_mem_linked h x hx
  rw [hrefs, hempty y hy, mem_foldl_addAction_nil _ (ref_eq_of_key_eq hpaths y)]
  simp only [mem_actionReferencesOf, callsFunction_of_bare table x y hbare]
  constructor
  · rintro ⟨r, ⟨ha, hcalls⟩, rfl⟩
    exact ⟨r.action, ha, r.function, hcalls, rfl⟩
  · rintro ⟨a, ha, f, hcalls, rfl⟩
    exact ⟨⟨a, f⟩, ⟨ha, hcalls⟩, rfl⟩

/-- If identifiers differ, edges lead to exactly the called files. -/
theorem callsAction_mem_edges_link [Host] (h : c.link table = .ok linked) (hids : c.DistinctIds)
    (x : Component) (hx : x ∈ linked.components) (a : ServerActionFile)
    (ha : a ∈ c.serverActionFiles) :
    ⟨x.id, a.id, .callsAction⟩ ∈ linked.edges ↔ ∃ f, CallsFunction table x a f := by
  obtain ⟨y, hy, hbare, -⟩ := exists_serverActions_of_mem_linked h x hx
  have hid := congrArg Component.id hbare
  change x.id = y.id at hid
  simp only [mem_edges_link h, callsFunction_of_bare table x y hbare, hid]
  constructor
  · intro huses
    obtain ⟨z, hz, b, hb, hsource, htarget, hcalls⟩ := huses.action_of_callsAction rfl
    obtain rfl : y = z := inj_on_of_nodup_map hids.components hy hz hsource
    obtain rfl : a = b := inj_on_of_nodup_map hids.serverActionFiles ha hb htarget
    exact hcalls
  · rintro ⟨f, hcalls⟩
    exact .callsAction y hy a ha f hcalls

end Catalog

/-- If all identifiers and all paths of action files differ and no component has a reference yet,
then after linking the references of a component repeat no function of a file, are exactly those to
the functions it calls, and belong to exactly the files it has an edge to. -/
theorem linked_server_actions [Host] (c : Catalog) (table : AliasTable) (linked : Catalog)
    (h : c.link table = .ok linked) (hids : c.DistinctIds)
    (hpaths : (c.serverActionFiles.map (·.filePath)).Nodup)
    (hempty : ∀ x ∈ c.components, x.serverActions = []) (x : Component)
    (hx : x ∈ linked.components) : (x.serverActions.map ServerActionRef.key).Nodup ∧
      (∀ a ∈ linked.serverActionFiles, ∀ f,
        ⟨f, a.relativePath, a.filePath⟩ ∈ x.serverActions ↔ CallsFunction table x a f) ∧
      (∀ ref ∈ x.serverActions, ∃ a ∈ linked.serverActionFiles,
        ref.importPath = a.relativePath ∧ ref.sourceFilePath = a.filePath) ∧
      ∀ a ∈ linked.serverActionFiles, ⟨x.id, a.id, .callsAction⟩ ∈ linked.edges ↔
        ∃ ref ∈ x.serverActions, ref.sourceFilePath = a.filePath := by
  have hmem := Catalog.mem_serverActions_link h hpaths hempty x hx
  rw [Catalog.serverActionFiles_link h]
  refine ⟨?_, ?_, ?_, ?_⟩
  · obtain ⟨y, hy, -, hrefs⟩ := Catalog.exists_serverActions_of_mem_linked h x hx
    rw [hrefs, hempty y hy]
    exact nodup_keys_foldl_addAction [] _ List.nodup_nil
  · intro a ha f
    rw [hmem]
    constructor
    · rintro ⟨b, hb, g, hcalls, heq⟩
      obtain ⟨rfl, -, hpath⟩ := ServerActionRef.mk.inj heq
      rwa [List.inj_on_of_nodup_map hpaths ha hb hpath]
    · intro hcalls
      exact ⟨a, ha, f, hcalls, rfl⟩
  · intro ref href
    obtain ⟨a, ha, f, -, rfl⟩ := (hmem ref).mp href
    exact ⟨a, ha, rfl, rfl⟩
  · intro a ha
    rw [Catalog.callsAction_mem_edges_link h hids x hx a ha]
    constructor
    · rintro ⟨f, hcalls⟩
      exact ⟨_, (hmem _).mpr ⟨a, ha, f, hcalls, rfl⟩, rfl⟩
    · rintro ⟨ref, href, hpath⟩
      obtain ⟨b, hb, f, hcalls, rfl⟩ := (hmem ref).mp href
      obtain rfl : a = b := List.inj_on_of_nodup_map hpaths ha hb hpath.symm
      exact ⟨f, hcalls⟩

/-- A form with one action twice, a default and types. -/
def formCatalog : Catalog where
  projectPath := "/site"
  projectName := "site"
  framework := .react
  router := .unknown
  components :=
    [{ name := "Form", filePath := "/form", fileName := "form", importRecords :=
        [{ names := ["drop", "save", "check"], source := "./act", isLocal := true,
           isDefault := true, typeNames := ["check"] },
         { names := ["save"], source := "act", isLocal := false },
         { names := ["send"], source := "./act", isLocal := true, isTypeOnly := true }] }]
  serverActionFiles :=
    [{ filePath := "/act.ts", relativePath := "act.ts",
       exportedFunctions := ["check", "drop", "save", "send"] },
     { filePath := "/other.ts", relativePath := "other.ts", exportedFunctions := ["save"] }]

section

attribute [local instance] Host.usual

/-- The form refers to the one action it imports as a value in braces, with an edge to its file
only. -/
theorem linked_server_actions_formCatalog :
    formCatalog.DistinctIds ∧ (formCatalog.serverActionFiles.map (·.filePath)).Nodup ∧
      ∃ linked x, formCatalog.link noAliases = .ok linked ∧ x ∈ linked.components ∧
        x.serverActions.length = 1 ∧ ⟨"save", "act.ts", "/act.ts"⟩ ∈ x.serverActions ∧
        ⟨x.id, "action:act.ts", .callsAction⟩ ∈ linked.edges ∧
        ⟨x.id, "action:other.ts", .callsAction⟩ ∉ linked.edges := by
  have hids : formCatalog.DistinctIds := by
    unfold Catalog.DistinctIds
    decide
  have hpaths : (formCatalog.serverActionFiles.map (·.filePath)).Nodup := by decide
  obtain ⟨-, hrefs, -, hedges⟩ := linked_server_actions formCatalog noAliases _ rfl hids hpaths
    (by decide) _ List.mem_cons_self
  refine ⟨hids, hpaths, _, _, rfl, List.mem_cons_self, by decide, ?_, ?_, ?_⟩
  · exact (hrefs _ List.mem_cons_self "save").mpr ⟨_, List.mem_cons_self, by decide⟩
  · exact (hedges _ List.mem_cons_self).mpr ⟨_, List.mem_cons_self, rfl⟩
  · exact mt (hedges _ (List.mem_cons_of_mem _ List.mem_cons_self)).mp (by decide)

end

end SiteAtlas
