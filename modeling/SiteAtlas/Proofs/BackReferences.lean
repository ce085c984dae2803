import SiteAtlas.Proofs.Edges

/-!
# Back-references agree with edges

Linking records a use as an edge between identifiers, and at the used entity under a route or a
name. If all identifiers differ and nothing was recorded before, the two records agree.
-/

namespace SiteAtlas

open List

/-- Linking notes the pages that render a component. -/
theorem mem_pagesUsing (c : Catalog) (id route : String) :
    route ∈ (Linking.ofCatalog c).pagesUsing id ↔
      ∃ p ∈ c.pages, Renders c p id ∧ p.route = route := by
  simp only [Linking.pagesUsing, Linking.ofCatalog, mem_map, mem_filter,
    mem_pageReferences, beq_iff_eq]
  constructor
  · rintro ⟨r, ⟨⟨hp, hrenders⟩, rfl⟩, rfl⟩
    exact ⟨r.page, hp, hrenders, rfl⟩
  · rintro ⟨p, hp, hrenders, rfl⟩
    exact ⟨⟨p, id⟩, ⟨⟨hp, hrenders⟩, rfl⟩, rfl⟩

/-- Linking notes the components that import an entity. -/
theorem mem_componentsUsing (c : Catalog) (kind : TargetKind) (id name : String) :
    name ∈ (Linking.ofCatalog c).componentsUsing kind id ↔
      ∃ x ∈ c.components, Imports c x kind id ∧ x.name = name := by
  simp only [Linking.componentsUsing, Linking.ofCatalog, mem_map, mem_filter,
    mem_importReferences, Bool.and_eq_true, beq_iff_eq]
  constructor
  · rintro ⟨r, ⟨⟨hx, himports⟩, rfl, rfl⟩, rfl⟩
    exact ⟨r.component, hx, himports, rfl⟩
  · rintro ⟨x, hx, himports, rfl⟩
    exact ⟨⟨x, kind, id⟩, ⟨⟨hx, himports⟩, rfl, rfl⟩, rfl⟩

/-- An identifier's label tells the kind. -/
theorem Imports.kind_eq {c : Catalog} {x : Component} {kind other : TargetKind} {id : String}
    (h : Imports c x kind id) (hlabel : idLabel id = other.label.toList) : kind = other := by
  obtain ⟨name, -, -, -, -, ⟨hlookup, -⟩, -⟩ := h
  have heq := (idLabel_of_lookup c kind name id hlookup).symm.trans hlabel
  rw [String.toList_inj] at heq
  cases kind <;> cases other <;> simp_all [TargetKind.label]

namespace Catalog

variable {c linked : Catalog} {table : AliasTable}

/-- An edge says that a page with a route renders a component. -/
def IsRenderedAt (c : Catalog) (id route : String) : Prop :=
  ∃ p ∈ c.pages, p.route = route ∧ ⟨p.id, id, .renders⟩ ∈ c.edges

/-- An edge says that a component with a name imports an entity. -/
def IsImportedBy (c : Catalog) (id name : String) : Prop :=
  ∃ x ∈ c.components, x.name = name ∧ ⟨x.id, id, .imports⟩ ∈ c.edges

/-- All identifiers of entities differ. -/
def DistinctIds (c : Catalog) : Prop :=
  (c.entities.map Entity.id).Nodup

/-- No entity has a back-reference yet. -/
structure Unused (c : Catalog) : Prop where
  pages : ∀ x ∈ c.components, x.usedInPages = []
  components : ∀ x ∈ c.components, x.usedInComponents = []
  hooks : ∀ h ∈ c.hooks, h.usedIn = []
  contexts : ∀ x ∈ c.contexts, x.usedIn = []
  utilities : ∀ u ∈ c.utilities, u.usedIn = []
  stores : ∀ s ∈ c.stores, s.usedIn = []

/-- Entities of one sort have distinct identifiers if all have. -/
theorem DistinctIds.nodup_map (h : c.DistinctIds) {α : Type} (items : List α)
    (toEntity : α → Entity) (keep : Entity → Bool)
    (hitems : c.entities.filter keep = items.map toEntity) :
    (items.map fun a => (toEntity a).id).Nodup := by
  have hids := h.sublist ((filter_sublist (p := keep)).map Entity.id)
  rwa [hitems, map_map] at hids

/-- Pages have their own identifiers. -/
theorem DistinctIds.pages (h : c.DistinctIds) : (c.pages.map Page.id).Nodup := by
  apply h.nodup_map c.pages .page (·.label == "page")
  simp [entities, filter_map, Function.comp_def, Entity.label]

/-- Components have their own identifiers. -/
theorem DistinctIds.components (h : c.DistinctIds) : (c.components.map Component.id).Nodup :=
  h.nodup_map c.components .component _ (c.filter_label_entities .component)

/-- Action files have distinct identifiers if all entities have. -/
theorem DistinctIds.serverActionFiles (h : c.DistinctIds) :
    (c.serverActionFiles.map ServerActionFile.id).Nodup := by
  apply h.nodup_map c.serverActionFiles .action (·.label == "action")
  simp [entities, filter_map, Function.comp_def, Entity.label]

/-- What a component gains does not change its identifier. -/
theorem DistinctIds.linkOwn (h : c.DistinctIds) (table : AliasTable) :
    ((c.components.map (linkOwn table c (Linking.ofCatalog c))).map Component.id).Nodup := by
  rw [map_map]
  exact h.components

/-- If all identifiers differ, an edge says that a component is rendered at a route exactly if
linking notes the route. -/
theorem isRenderedAt_iff [Host] (h : c.link table = .ok linked) (hids : c.DistinctIds)
    (id route : String) :
    linked.IsRenderedAt id route ↔ route ∈ (Linking.ofCatalog c).pagesUsing id := by
  unfold IsRenderedAt
  simp only [pages_link h, mem_edges_link h, mem_pagesUsing]
  constructor
  · rintro ⟨p, hp, rfl, huses⟩
    -- The edge knows its page by identifier only, which by `hids` is enough to know the route.
    obtain ⟨q, hq, hid, hrenders⟩ := huses.page_of_renders rfl
    obtain rfl : p = q := inj_on_of_nodup_map hids.pages hp hq hid
    exact ⟨p, hp, hrenders, rfl⟩
  · rintro ⟨p, hp, hrenders, rfl⟩
    exact ⟨p, hp, rfl, .renders p hp id hrenders⟩

/-- If identifiers differ, an edge tells an import exactly if it is noted. -/
theorem isImportedBy_iff [Host] (h : c.link table = .ok linked) (hids : c.DistinctIds)
    (kind : TargetKind) (id name : String) (hlabel : idLabel id = kind.label.toList) :
    linked.IsImportedBy id name ↔ name ∈ (Linking.ofCatalog c).componentsUsing kind id := by
  unfold IsImportedBy
  rw [exists_component_link h, mem_componentsUsing]
  · simp only [mem_edges_link h]
    constructor
    · rintro ⟨x, hx, rfl, huses⟩
      obtain ⟨y, hy, hid, found, himports⟩ := huses.component_of_imports rfl
      obtain rfl : x = y := inj_on_of_nodup_map hids.components hx hy hid
      exact ⟨x, hx, himports.kind_eq hlabel ▸ himports, rfl⟩
    · rintro ⟨x, hx, himports, rfl⟩
      exact ⟨x, hx, rfl, .imports x hx kind id himports⟩
  · rintro x y hbare ⟨rfl, hedge⟩
    have hname := congrArg Component.name hbare
    have hid := congrArg Component.id hbare
    change x.id = y.id at hid
    exact ⟨hname.symm, hid ▸ hedge⟩

/-- If identifiers differ, new use lists agree with the edges. -/
theorem uses_link_iff [Host] {α : Type} (u : UseList α) (h : c.link table = .ok linked)
    (hids : c.DistinctIds) (items : List α) (toEntity : α → Entity)
    (hitems : c.entitiesOf u.kind = items.map toEntity)
    (hid : ∀ a, (toEntity a).id = u.id a) (hempty : ∀ a ∈ items, u.uses a = []) (a : α)
    (ha : a ∈ u.linkAll (Linking.ofCatalog c) items) :
    (u.uses a).Nodup ∧ ∀ name, name ∈ u.uses a ↔ linked.IsImportedBy (u.id a) name := by
  have hnodup := hids.nodup_map items toEntity _ ((c.filter_label_entities u.kind).trans hitems)
  simp only [hid] at hnodup
  rw [UseList.linkAll, mapLast_eq_map _ _ _ hnodup] at ha
  obtain ⟨b, hb, rfl⟩ := mem_map.mp ha
  have hlabel : idLabel (u.id b) = u.kind.label.toList := by
    have hmem : toEntity b ∈ c.entitiesOf u.kind := hitems ▸ mem_map_of_mem hb
    rw [← hid, Entity.idLabel_id, ((c.mem_entitiesOf u.kind _).mp hmem).2]
  rw [UseList.link, u.uses_set, u.id_set, hempty b hb, addAll_nil]
  refine ⟨nodup_unique _, ?_⟩
  intro name
  rw [isImportedBy_iff h hids u.kind _ name hlabel, mem_unique]

/-- If identifiers differ, back-references of components agree with edges. -/
theorem components_link_iff [Host] (h : c.link table = .ok linked) (hids : c.DistinctIds)
    (hunused : c.Unused) (t : Component) (ht : t ∈ linked.components) :
    (t.usedInPages.Nodup ∧ ∀ route, route ∈ t.usedInPages ↔ linked.IsRenderedAt t.id route) ∧
      t.usedInComponents.Nodup ∧
        ∀ name, name ∈ t.usedInComponents ↔ linked.IsImportedBy t.id name := by
  obtain ⟨middleware, -, hlinked⟩ := (c.link_eq_ok_iff table linked).mp h
  rw [hlinked, linkedFrom, mapLast_eq_map _ _ _ (hids.linkOwn table), map_map] at ht
  obtain ⟨x, hx, rfl⟩ := mem_map.mp ht
  let pages := (Linking.ofCatalog c).pagesUsing x.id
  let components := (Linking.ofCatalog c).componentsUsing .component x.id
  change ((addAll x.usedInPages pages).Nodup ∧ ∀ route, route ∈ addAll x.usedInPages pages ↔
      linked.IsRenderedAt x.id route) ∧ (addAll x.usedInComponents components).Nodup ∧
    ∀ name, name ∈ addAll x.usedInComponents components ↔ linked.IsImportedBy x.id name
  rw [hunused.pages x hx, hunused.components x hx, addAll_nil, addAll_nil]
  refine ⟨⟨nodup_unique _, ?_⟩, nodup_unique _, ?_⟩
  · intro route
    rw [isRenderedAt_iff h hids, mem_unique]
  · intro name
    rw [isImportedBy_iff h hids .component x.id name (Entity.component x).idLabel_id, mem_unique]

end Catalog

/-- If all identifiers differ and no entity has a back-reference yet, then after linking
back-references and edges say the same: a component is used at exactly the routes of pages with an
edge to it, every entity in exactly the components with an edge to it, and no note is repeated. -/
theorem linked_back_references [Host] (c : Catalog) (table : AliasTable) (linked : Catalog)
    (h : c.link table = .ok linked) (hids : c.DistinctIds) (hunused : c.Unused) :
    (∀ t ∈ linked.components,
      (t.usedInPages.Nodup ∧ ∀ route, route ∈ t.usedInPages ↔ linked.IsRenderedAt t.id route) ∧
        t.usedInComponents.Nodup ∧
          ∀ name, name ∈ t.usedInComponents ↔ linked.IsImportedBy t.id name) ∧
    (∀ e ∈ linked.hooks,
      e.usedIn.Nodup ∧ ∀ name, name ∈ e.usedIn ↔ linked.IsImportedBy e.id name) ∧
    (∀ e ∈ linked.contexts,
      e.usedIn.Nodup ∧ ∀ name, name ∈ e.usedIn ↔ linked.IsImportedBy e.id name) ∧
    (∀ e ∈ linked.utilities,
      e.usedIn.Nodup ∧ ∀ name, name ∈ e.usedIn ↔ linked.IsImportedBy e.id name) ∧
    ∀ e ∈ linked.stores,
      e.usedIn.Nodup ∧ ∀ name, name ∈ e.usedIn ↔ linked.IsImportedBy e.id name := by
  refine ⟨Catalog.components_link_iff h hids hunused, ?_, ?_, ?_, ?_⟩
  all_goals
    intro e he
    obtain ⟨middleware, -, hlinked⟩ := (c.link_eq_ok_iff table linked).mp h
    rw [hlinked] at he
  · exact Catalog.uses_link_iff Hook.useList h hids c.hooks .hook rfl
      (fun _ => rfl) hunused.hooks e he
  · exact Catalog.uses_link_iff Context.useList h hids c.contexts .context rfl
      (fun _ => rfl) hunused.contexts e he
  · exact Catalog.uses_link_iff Utility.useList h hids c.utilities .utility rfl
      (fun _ => rfl) hunused.utilities e he
  · exact Catalog.uses_link_iff Store.useList h hids c.stores .store rfl
      (fun _ => rfl) hunused.stores e he

section

attribute [local instance] Host.usual

/-- In the small site both importers of the menu are noted, and for the frame the route of its page.
-/
theorem linked_back_references_menuCatalog :
    menuCatalog.DistinctIds ∧ menuCatalog.Unused ∧ ∃ linked frame menu,
      menuCatalog.link noAliases = .ok linked ∧ frame ∈ linked.components ∧
      menu ∈ linked.components ∧ "/" ∈ frame.usedInPages ∧ "Frame" ∈ menu.usedInComponents ∧
      "Item" ∈ menu.usedInComponents ∧ linked.IsImportedBy menu.id "Item" := by
  have hids : menuCatalog.DistinctIds := by
    unfold Catalog.DistinctIds
    decide
  have hunused : menuCatalog.Unused := by
    constructor <;> decide
  obtain ⟨hcomponents, -⟩ := linked_back_references menuCatalog noAliases _ rfl hids hunused
  have hmenu := (hcomponents _ (List.mem_cons_of_mem _ List.mem_cons_self)).2.2
  have hitem := (hmenu "Item").mp (by decide)
  exact ⟨hids, hunused, _, _, _, rfl, List.mem_cons_self, List.mem_cons_of_mem _ List.mem_cons_self,
    by decide, by decide, by decide, hitem⟩

end

end SiteAtlas
