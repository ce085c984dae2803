import SiteAtlas.Proofs.BackReferences
import SiteAtlas.Proofs.Relinking

/-!
# Linking only appends

Linking writes to use lists, the actions and closures of components, the routes of the middleware
and the edges, and to nothing else. A use list keeps what it holds and gains new names after it,
each once. Of several entities with one identifier the last takes them.
-/

namespace SiteAtlas

open List

/-- A list followed by values that it lacks, each once. -/
def Extends (old new : List String) : Prop :=
  ∃ fresh, new = old ++ fresh ∧ fresh.Nodup ∧ ∀ x ∈ fresh, x ∉ old

/-- Every list extends itself. -/
theorem extends_refl (items : List String) : Extends items items :=
  ⟨[], by simp⟩

/-- Noting values extends a list. -/
theorem extends_addAll (items more : List String) : Extends items (addAll items more) := by
  obtain ⟨fresh, heq, hnodup, hmem⟩ := foldl_addUnique_eq_append items more
  exact ⟨fresh, heq, hnodup, fun x hx => ((hmem x).mp hx).2⟩

section MapLast

variable {α : Type} (id : α → String) (change : α → α) (items : List α)

/-- Changing last items changes or leaves items, and moves none. -/
theorem forall₂_mapLast :
    List.Forall₂ (fun old new => new = old ∨ new = change old) items (mapLast id change items) := by
  induction items with
  | nil => exact .nil
  | cons a rest ih =>
    refine .cons ?_ ih
    split
    · exact Or.inl rfl
    · exact Or.inr rfl

/-- For every identifier in a list, one of its items is changed. -/
theorem exists_change_mem_mapLast (a : α) (ha : a ∈ items) :
    ∃ b, id b = id a ∧ change b ∈ mapLast id change items := by
  induction items generalizing a with
  | nil => exact absurd ha not_mem_nil
  | cons first rest ih =>
    have hrest (b : α) (hb : b ∈ rest) :
        ∃ d, id d = id b ∧ change d ∈ mapLast id change (first :: rest) := by
      obtain ⟨d, hd, hmem⟩ := ih b hb
      exact ⟨d, hd, mem_cons_of_mem _ hmem⟩
    rcases mem_cons.mp ha with rfl | hlater
    · by_cases hagain : rest.any (id · == id a) = true
      · obtain ⟨b, hb, hid⟩ := any_eq_true.mp hagain
        rw [← eq_of_beq hid]
        exact hrest b hb
      · refine ⟨a, rfl, ?_⟩
        rw [mapLast, if_neg hagain]
        exact mem_cons_self
    · exact hrest a hlater

end MapLast

namespace UseList

variable {α : Type} (u : UseList α) (l : Linking) (items : List α)

/-- Linking entities extends use lists and writes nothing else. -/
theorem forall₂_linkAll (hsame : ∀ a, u.set a (u.uses a) = a) :
    List.Forall₂ (fun old new => new = u.set old (u.uses new) ∧ Extends (u.uses old) (u.uses new))
      items (u.linkAll l items) := by
  refine (forall₂_mapLast u.id (u.link l) items).imp ?_
  rintro old new (rfl | rfl)
  · exact ⟨(hsame new).symm, extends_refl _⟩
  · rw [link, u.uses_set]
    exact ⟨rfl, extends_addAll _ _⟩

/-- Linking entities notes every component that imports one. -/
theorem exists_mem_linkAll (a : α) (ha : a ∈ items) (name : String)
    (hname : name ∈ l.componentsUsing u.kind (u.id a)) :
    ∃ b ∈ u.linkAll l items, u.id b = u.id a ∧ name ∈ u.uses b := by
  obtain ⟨b, hid, hmem⟩ := exists_change_mem_mapLast u.id (u.link l) items a ha
  refine ⟨u.link l b, hmem, ?_, ?_⟩
  · rw [link, u.id_set, hid]
  · rw [link, u.uses_set, addAll, mem_foldl_addUnique, hid]
    exact Or.inr hname

end UseList

/-- What linking does to a component: use lists grow, two fields are written. -/
structure Component.Gains (old new : Component) : Prop where
  same : new = { old with
    serverActions := new.serverActions
    usedInPages := new.usedInPages
    usedInComponents := new.usedInComponents
    allDependencies := new.allDependencies }
  usedInPages : Extends old.usedInPages new.usedInPages
  usedInComponents : Extends old.usedInComponents new.usedInComponents

section Components

variable (table : AliasTable) (c : Catalog) (l : Linking) (items : List Component)

/-- Linking components extends use lists and writes two fields. -/
theorem forall₂_linkedComponents : List.Forall₂ Component.Gains items
      (mapLast Component.id (linkUses l) (items.map (linkOwn table c l))) := by
  have hlinked := forall₂_mapLast Component.id (linkUses l) (items.map (linkOwn table c l))
  rw [forall₂_map_left_iff] at hlinked
  refine hlinked.imp ?_
  rintro old new (rfl | rfl)
  · exact ⟨rfl, extends_refl _, extends_refl _⟩
  · exact ⟨rfl, extends_addAll _ _, extends_addAll _ _⟩

/-- Linking components notes each page that renders one and each component that imports it, all at
one component of the identifier. -/
theorem exists_mem_linkedComponents (a : Component) (ha : a ∈ items) :
    ∃ b ∈ mapLast Component.id (linkUses l) (items.map (linkOwn table c l)), b.id = a.id ∧
      (∀ route ∈ l.pagesUsing a.id, route ∈ b.usedInPages) ∧
        ∀ name ∈ l.componentsUsing .component a.id, name ∈ b.usedInComponents := by
  obtain ⟨b, hid, hmem⟩ := exists_change_mem_mapLast Component.id (linkUses l)
    (items.map (linkOwn table c l)) (linkOwn table c l a) (mem_map_of_mem ha)
  have hnoted (old more : List String) (x : String) (hx : x ∈ more) : x ∈ addAll old more :=
    (mem_foldl_addUnique old more x).mpr (Or.inr hx)
  refine ⟨linkUses l b, hmem, hid, ?_, ?_⟩
  · intro route hroute
    exact hnoted _ _ route (hid ▸ hroute)
  · intro name hname
    exact hnoted _ _ name (hid ▸ hname)

end Components

/-- Linking the middleware only extends its routes. -/
theorem rel_linkedMiddleware [Host] (c : Catalog) (middleware : Option Middleware)
    (h : linkedMiddleware c = .ok middleware) : Option.Rel (fun old new : Middleware =>
        new = { old with usedIn := new.usedIn } ∧ Extends old.usedIn new.usedIn)
      c.middleware middleware := by
  rcases (linkedMiddleware_eq_ok_iff c middleware).mp h with ⟨hm, rfl⟩ | ⟨m, routes, hm, -, rfl⟩
  · rw [hm]
    exact .none
  · rw [hm]
    exact .some ⟨rfl, extends_addAll _ _⟩

/-- The components that an entity is noted for. -/
def Entity.users : Entity → List String
  | .page _ => []
  | .component x => x.usedInComponents
  | .hook h => h.usedIn
  | .context x => x.usedIn
  | .utility u => u.usedIn
  | .store s => s.usedIn
  | .action _ => []

namespace Catalog

variable [Host] {c linked : Catalog} {table : AliasTable} (h : c.link table = .ok linked)
include h

/-- After linking, a rendered component has the page's route. -/
theorem exists_rendered_link (p : Page) (hp : p ∈ c.pages) (id : String)
    (hrenders : Renders c p id) : ∃ t ∈ linked.components, t.id = id ∧ p.route ∈ t.usedInPages := by
  obtain ⟨middleware, -, rfl⟩ := (c.link_eq_ok_iff table linked).mp h
  have hroute := (mem_pagesUsing c id p.route).mpr ⟨p, hp, hrenders, rfl⟩
  obtain ⟨name, -, hlookup⟩ := hrenders
  obtain ⟨e, he, rfl⟩ := exists_entity_of_lookup c .component name id hlookup
  obtain ⟨x, hx, rfl⟩ := mem_map.mp he
  obtain ⟨t, ht, hid, hpages, -⟩ :=
    exists_mem_linkedComponents table c (Linking.ofCatalog c) c.components x hx
  exact ⟨t, ht, hid, hpages p.route hroute⟩

/-- After linking, an imported entity has the component's name. -/
theorem exists_imported_link (x : Component) (hx : x ∈ c.components) (kind : TargetKind)
    (id : String) (himports : Imports c x kind id) :
    ∃ e ∈ linked.entitiesOf kind, e.id = id ∧ x.name ∈ e.users := by
  obtain ⟨middleware, -, rfl⟩ := (c.link_eq_ok_iff table linked).mp h
  have hname := (mem_componentsUsing c kind id x.name).mpr ⟨x, hx, himports, rfl⟩
  obtain ⟨name, -, -, -, -, ⟨hlookup, -⟩, -⟩ := himports
  obtain ⟨e, he, rfl⟩ := exists_entity_of_lookup c kind name id hlookup
  cases kind with
  | component =>
    obtain ⟨a, ha, rfl⟩ := mem_map.mp he
    obtain ⟨b, hb, hid, -, hnames⟩ :=
      exists_mem_linkedComponents table c (Linking.ofCatalog c) c.components a ha
    exact ⟨.component b, mem_map_of_mem hb, hid, hnames x.name hname⟩
  | hook =>
    obtain ⟨a, ha, rfl⟩ := mem_map.mp he
    obtain ⟨b, hb, hid, hmem⟩ := Hook.useList.exists_mem_linkAll _ c.hooks a ha x.name hname
    exact ⟨.hook b, mem_map_of_mem hb, hid, hmem⟩
  | context =>
    obtain ⟨a, ha, rfl⟩ := mem_map.mp he
    obtain ⟨b, hb, hid, hmem⟩ := Context.useList.exists_mem_linkAll _ c.contexts a ha x.name hname
    exact ⟨.context b, mem_map_of_mem hb, hid, hmem⟩
  | utility =>
    obtain ⟨a, ha, rfl⟩ := mem_map.mp he
    obtain ⟨b, hb, hid, hmem⟩ := Utility.useList.exists_mem_linkAll _ c.utilities a ha x.name hname
    exact ⟨.utility b, mem_map_of_mem hb, hid, hmem⟩
  | store =>
    obtain ⟨a, ha, rfl⟩ := mem_map.mp he
    obtain ⟨b, hb, hid, hmem⟩ := Store.useList.exists_mem_linkAll _ c.stores a ha x.name hname
    exact ⟨.store b, mem_map_of_mem hb, hid, hmem⟩

end Catalog

/-- Linking leaves a catalog and its entities as they were, except that it extends the use lists of
components, hooks, contexts, utilities, stores and the middleware, and writes the actions and
closures of components and the edges. No entity is added, lost or moved, and every use is noted at
an entity of the identifier. -/
theorem link_appends_only [Host] (c : Catalog) (table : AliasTable) (linked : Catalog)
    (h : c.link table = .ok linked) :
    linked = { c with
      components := linked.components
      hooks := linked.hooks
      contexts := linked.contexts
      utilities := linked.utilities
      stores := linked.stores
      middleware := linked.middleware
      edges := linked.edges } ∧
    List.Forall₂ Component.Gains c.components linked.components ∧
    List.Forall₂ (fun old new : Hook =>
      new = { old with usedIn := new.usedIn } ∧ Extends old.usedIn new.usedIn)
      c.hooks linked.hooks ∧
    List.Forall₂ (fun old new : Context =>
      new = { old with usedIn := new.usedIn } ∧ Extends old.usedIn new.usedIn)
      c.contexts linked.contexts ∧
    List.Forall₂ (fun old new : Utility =>
      new = { old with usedIn := new.usedIn } ∧ Extends old.usedIn new.usedIn)
      c.utilities linked.utilities ∧
    List.Forall₂ (fun old new : Store =>
      new = { old with usedIn := new.usedIn } ∧ Extends old.usedIn new.usedIn)
      c.stores linked.stores ∧
    Option.Rel (fun old new : Middleware =>
      new = { old with usedIn := new.usedIn } ∧ Extends old.usedIn new.usedIn)
      c.middleware linked.middleware ∧
    (∀ p ∈ c.pages, ∀ id, Renders c p id →
      ∃ t ∈ linked.components, t.id = id ∧ p.route ∈ t.usedInPages) ∧
    ∀ x ∈ c.components, ∀ kind id, Imports c x kind id →
      ∃ e ∈ linked.entitiesOf kind, e.id = id ∧ x.name ∈ e.users := by
  have hrendered := Catalog.exists_rendered_link h
  have himported := Catalog.exists_imported_link h
  obtain ⟨middleware, hmiddleware, rfl⟩ := (c.link_eq_ok_iff table linked).mp h
  exact ⟨rfl, forall₂_linkedComponents table c _ c.components,
    Hook.useList.forall₂_linkAll _ c.hooks fun _ => rfl,
    Context.useList.forall₂_linkAll _ c.contexts fun _ => rfl,
    Utility.useList.forall₂_linkAll _ c.utilities fun _ => rfl,
    Store.useList.forall₂_linkAll _ c.stores fun _ => rfl,
    rel_linkedMiddleware c middleware hmiddleware, hrendered, himported⟩

section

attribute [local instance] Host.usual

/-- In the small site with repeated components, those listed last keep the names they came with;
both importers of the menu are added, and the item, which has its only one already, stays. -/
theorem link_appends_only_repeatedCatalog : ∃ linked, repeatedCatalog.link noAliases = .ok linked ∧
      List.Forall₂ Component.Gains repeatedCatalog.components linked.components ∧
      linked.components.map (·.usedInComponents) =
        [[], [], [], ["Other", "Menu"], ["Other", "Menu", "Frame", "Item"], ["Other", "Menu"]] := by
  obtain ⟨-, hcomponents, -⟩ := link_appends_only repeatedCatalog noAliases _ rfl
  exact ⟨_, rfl, hcomponents, by decide⟩

end

end SiteAtlas
