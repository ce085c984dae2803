import SiteAtlas.Proofs.Linked
import SiteAtlas.Proofs.References
import SiteAtlas.Proofs.Sorting

/-!
# The edges of the usage graph

After linking, the edges are exactly the uses in the catalog, in strict order of source, target and
kind. They lead from entity to entity, and none back to where it starts.
-/

namespace SiteAtlas

open List

variable {table : AliasTable} {c : Catalog} {e : Edge}

/-- Edges are ordered by source, target and kind. -/
def Edge.key (e : Edge) : String ×ₗ String ×ₗ String :=
  toLex (e.source, toLex (e.target, e.kind.label))

/-- The uses in a catalog. -/
inductive Uses (table : AliasTable) (c : Catalog) : Edge → Prop
  | renders (p : Page) (hp : p ∈ c.pages) (id : String) (h : Renders c p id) :
    Uses table c ⟨p.id, id, .renders⟩
  | imports (x : Component) (hx : x ∈ c.components) (kind : TargetKind) (id : String)
    (h : Imports c x kind id) : Uses table c ⟨x.id, id, .imports⟩
  | callsAction (x : Component) (hx : x ∈ c.components) (a : ServerActionFile)
    (ha : a ∈ c.serverActionFiles) (f : String) (h : CallsFunction table x a f) :
    Uses table c ⟨x.id, a.id, .callsAction⟩

/-- The comparison of edges is that of their keys. -/
theorem edgeLE_iff (a b : Edge) : edgeLE a b = true ↔ a.key ≤ b.key := by
  rw [edgeLE, Edge.key, Edge.key, Prod.Lex.toLex_le_toLex, ← Text.pairLE_iff]
  by_cases hsource : a.source < b.source
  · simp [hsource]
  · by_cases hequal : a.source = b.source <;> simp [hsource, hequal]

/-- Sorted edges are in order of their keys. -/
theorem pairwise_mergeSort_edgeLE (edges : List Edge) :
    (edges.mergeSort edgeLE).Pairwise fun a b => a.key ≤ b.key :=
  pairwise_mergeSort_of_key edgeLE Edge.key edgeLE_iff edges

/-- A use is told by its key. -/
theorem Uses.eq_of_key_eq {a b : Edge} (ha : Uses table c a) (hb : Uses table c b)
    (h : a.key = b.key) : a = b := by
  obtain ⟨hsource, htarget, hlabel⟩ :
      a.source = b.source ∧ a.target = b.target ∧ a.kind.label = b.kind.label := by
    simpa [Edge.key] using h
  have hkind : a.kind = b.kind := by
    cases ha <;> cases hb <;> simp_all [EdgeKind.label]
  cases a
  cases b
  simp_all

/-- Linked edges are the uses. -/
theorem mem_linkedEdges (table : AliasTable) (c : Catalog) (e : Edge) :
    e ∈ linkedEdges table c (Linking.ofCatalog c) ↔ Uses table c e := by
  simp only [linkedEdges, Linking.ofCatalog, mem_mergeSort, mem_unique, mem_append,
    mem_map, mem_flatMap, mem_pageReferences, mem_importReferences,
    mem_actionReferencesOf]
  constructor
  · rintro ((⟨r, ⟨hp, hrenders⟩, rfl⟩ | ⟨r, ⟨hx, himports⟩, rfl⟩) | ⟨x, hx, r, ⟨ha, hcalls⟩, rfl⟩)
    · exact .renders r.page hp r.target hrenders
    · exact .imports r.component hx r.kind r.target himports
    · exact .callsAction x hx r.action ha r.function hcalls
  · rintro (⟨p, hp, id, hrenders⟩ | ⟨x, hx, kind, id, himports⟩ | ⟨x, hx, a, ha, f, hcalls⟩)
    · exact .inl (.inl ⟨⟨p, id⟩, ⟨hp, hrenders⟩, rfl⟩)
    · exact .inl (.inr ⟨⟨x, kind, id⟩, ⟨hx, himports⟩, rfl⟩)
    · exact .inr ⟨x, hx, ⟨a, f⟩, ⟨ha, hcalls⟩, rfl⟩

/-- Linked edges are in strict order. -/
theorem pairwise_linkedEdges (table : AliasTable) (c : Catalog) :
    (linkedEdges table c (Linking.ofCatalog c)).Pairwise fun a b => a.key < b.key := by
  have hnodup : (linkedEdges table c (Linking.ofCatalog c)).Nodup :=
    (mergeSort_perm _ _).nodup_iff.mpr (nodup_unique _)
  refine (List.Pairwise.and (pairwise_mergeSort_edgeLE _) hnodup).imp_of_mem ?_
  intro a b ha hb hab
  refine lt_of_le_of_ne hab.1 fun hkey => hab.2 ?_
  exact ((mem_linkedEdges table c a).mp ha).eq_of_key_eq ((mem_linkedEdges table c b).mp hb) hkey

/-- An edge begins at an entity. -/
theorem Uses.source_mem (h : Uses table c e) : e.source ∈ c.entities.map Entity.id := by
  cases h with
  | renders p hp id h => exact mem_map.mpr ⟨.page p, by simp [Catalog.entities, hp], rfl⟩
  | imports x hx kind id h =>
    exact mem_map.mpr ⟨.component x, by simp [Catalog.entities, hx], rfl⟩
  | callsAction x hx a ha f h =>
    exact mem_map.mpr ⟨.component x, by simp [Catalog.entities, hx], rfl⟩

/-- What a lookup finds is an entity. -/
theorem mem_ids_of_lookup (c : Catalog) (kind : TargetKind) (name id : String)
    (h : (indexOf c kind).lookup name = some id) : id ∈ c.entities.map Entity.id := by
  obtain ⟨e, he, hid⟩ := exists_entity_of_lookup c kind name id h
  exact mem_map.mpr ⟨e, ((c.mem_entitiesOf kind e).mp he).1, hid⟩

/-- An edge ends at an entity. -/
theorem Uses.target_mem (h : Uses table c e) : e.target ∈ c.entities.map Entity.id := by
  cases h with
  | renders p hp id h =>
    obtain ⟨name, -, hlookup⟩ := h
    exact mem_ids_of_lookup c .component name id hlookup
  | imports x hx kind id h =>
    obtain ⟨name, -, -, -, -, ⟨hlookup, -⟩, -⟩ := h
    exact mem_ids_of_lookup c kind name id hlookup
  | callsAction x hx a ha f h =>
    exact mem_map.mpr ⟨.action a, by simp [Catalog.entities, ha], rfl⟩

/-- Nothing uses itself. -/
theorem Uses.source_ne_target (h : Uses table c e) : e.source ≠ e.target := by
  cases h with
  | renders p hp id h =>
    obtain ⟨name, -, hlookup⟩ := h
    obtain ⟨target, htarget, rfl⟩ := exists_entity_of_lookup c .component name id hlookup
    intro hid
    have hlabel := Entity.label_eq_of_id_eq (.page p) target hid
    rw [((c.mem_entitiesOf .component target).mp htarget).2] at hlabel
    change "page" = "component" at hlabel
    exact absurd hlabel (by decide)
  | imports x hx kind id h =>
    obtain ⟨name, -, -, -, -, ⟨-, hne⟩, -⟩ := h
    exact hne.symm
  | callsAction x hx a ha f h =>
    intro hid
    have hlabel := Entity.label_eq_of_id_eq (.component x) (.action a) hid
    change "component" = "action" at hlabel
    exact absurd hlabel (by decide)

/-- A rendering edge comes from a page. -/
theorem Uses.page_of_renders (h : Uses table c e) (hkind : e.kind = .renders) :
    ∃ p ∈ c.pages, e.source = p.id ∧ Renders c p e.target := by
  cases h with
  | renders p hp id h => exact ⟨p, hp, rfl, h⟩
  | imports x hx kind id h => cases hkind
  | callsAction x hx a ha f h => cases hkind

/-- An import edge comes from a component. -/
theorem Uses.component_of_imports (h : Uses table c e) (hkind : e.kind = .imports) :
    ∃ x ∈ c.components, e.source = x.id ∧ ∃ kind, Imports c x kind e.target := by
  cases h with
  | renders p hp id h => cases hkind
  | imports x hx kind id h => exact ⟨x, hx, rfl, kind, h⟩
  | callsAction x hx a ha f h => cases hkind

/-- An edge for a call comes from a caller of its target. -/
theorem Uses.action_of_callsAction (h : Uses table c e) (hkind : e.kind = .callsAction) :
    ∃ x ∈ c.components, ∃ a ∈ c.serverActionFiles, e.source = x.id ∧ e.target = a.id ∧
      ∃ f, CallsFunction table x a f := by
  cases h with
  | renders p hp id h => cases hkind
  | imports x hx kind id h => cases hkind
  | callsAction x hx a ha f h => exact ⟨x, hx, a, ha, rfl, rfl, f, h⟩

/-- The edges of a linked catalog are the uses. -/
theorem Catalog.mem_edges_link [Host] {linked : Catalog} (h : c.link table = .ok linked) (e : Edge)
    : e ∈ linked.edges ↔ Uses table c e := by
  obtain ⟨middleware, -, rfl⟩ := (c.link_eq_ok_iff table linked).mp h
  exact mem_linkedEdges table c e

/-- After linking, the edges are in strict order of source, target and kind, and are exactly the
uses in the catalog. Both ends of each are nodes of the usage graph, and they differ. -/
theorem linked_edges_exact [Host] (c : Catalog) (table : AliasTable) (linked : Catalog)
    (h : c.link table = .ok linked) :
    linked.edges.Pairwise (fun a b => a.key < b.key) ∧ linked.edges.Nodup ∧
      (∀ e, e ∈ linked.edges ↔ Uses table c e) ∧
      ∀ e ∈ linked.edges, linked.nodes.has e.source = true ∧ linked.nodes.has e.target = true ∧
        e.source ≠ e.target := by
  have hmem := Catalog.mem_edges_link h
  have hstrict : linked.edges.Pairwise fun a b => a.key < b.key := by
    obtain ⟨middleware, -, rfl⟩ := (c.link_eq_ok_iff table linked).mp h
    exact pairwise_linkedEdges table c
  refine ⟨hstrict, hstrict.imp fun hlt heq => ?_, hmem, ?_⟩
  · exact absurd (congrArg Edge.key heq) (ne_of_lt hlt)
  · intro e he
    have huses := (hmem e).mp he
    rw [Catalog.has_nodes, Catalog.has_nodes, Catalog.ids_link h]
    exact ⟨huses.source_mem, huses.target_mem, huses.source_ne_target⟩

section

attribute [local instance] Host.usual

/-- An own name means the utility, and a relative import the action. -/
theorem linked_edges_menuCatalog : ∃ linked, menuCatalog.link noAliases = .ok linked ∧
      linked.edges.Pairwise (fun a b => a.key < b.key) ∧
      ⟨"page:/@/p", "component:/f", .renders⟩ ∈ linked.edges ∧
      ⟨"component:/i", "utility:/u", .imports⟩ ∈ linked.edges ∧
      ⟨"component:/i", "action:act.ts", .callsAction⟩ ∈ linked.edges := by
  obtain ⟨hstrict, -, hmem, -⟩ := linked_edges_exact menuCatalog noAliases _ rfl
  refine ⟨_, rfl, hstrict, ?_, ?_, ?_⟩
  · rw [hmem]
    exact .renders (menuCatalog.pages.get ⟨0, by decide⟩) (List.get_mem _ _) "component:/f"
      ⟨"Frame", by decide, by decide⟩
  · rw [hmem]
    refine .imports (menuCatalog.components.get ⟨2, by decide⟩) (List.get_mem _ _) .utility
      "utility:/u" ⟨"item", by decide, [.component, .hook, .context], [.store], rfl, by decide, ?_⟩
    intro earlier hearlier other hlookup
    simp only [List.mem_cons, List.not_mem_nil, or_false] at hearlier
    rcases hearlier with rfl | rfl | rfl
    · exact (Option.some.inj hlookup).symm
    · cases hlookup
    · cases hlookup
  · rw [hmem]
    exact .callsAction (menuCatalog.components.get ⟨2, by decide⟩) (List.get_mem _ _)
      (menuCatalog.serverActionFiles.get ⟨0, by decide⟩) (List.get_mem _ _) "save"
      ⟨_, List.mem_cons_self, by decide⟩

end

end SiteAtlas
