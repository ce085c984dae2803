import SiteAtlas.Proofs.BackReferences
import SiteAtlas.Proofs.Closure
import SiteAtlas.Proofs.Collisions

/-!
# Linking a rearranged catalog

Catalogs that list the same entities in different orders may be linked differently, since the first
registration of a key wins. If no index counts a collision, they have the same imports, closures
and edges, and back-references differ at most in order.
-/

namespace SiteAtlas

open List

namespace Catalog

variable {c d : Catalog} {table : AliasTable}

/-- Two catalogs list the same entities, each kind in an order of its own. -/
structure Rearranged (c d : Catalog) : Prop where
  pages : c.pages.Perm d.pages
  components : c.components.Perm d.components
  hooks : c.hooks.Perm d.hooks
  contexts : c.contexts.Perm d.contexts
  utilities : c.utilities.Perm d.utilities
  stores : c.stores.Perm d.stores
  serverActionFiles : c.serverActionFiles.Perm d.serverActionFiles

/-- All names are looked up alike in two catalogs. -/
def AnswersAlike (c d : Catalog) : Prop :=
  ∀ kind, (indexOf c kind).lookup = (indexOf d kind).lookup

namespace Rearranged

/-- Rearranging can be undone. -/
theorem symm (h : c.Rearranged d) : d.Rearranged c :=
  ⟨h.pages.symm, h.components.symm, h.hooks.symm, h.contexts.symm, h.utilities.symm, h.stores.symm,
    h.serverActionFiles.symm⟩

/-- Rearranged catalogs have the same entities. -/
theorem entities (h : c.Rearranged d) : c.entities.Perm d.entities := by
  unfold Catalog.entities
  exact ((((((h.pages.map _).append (h.components.map _)).append (h.hooks.map _)).append
    (h.contexts.map _)).append (h.utilities.map _)).append (h.stores.map _)).append
      (h.serverActionFiles.map _)

/-- Identifiers that differ still differ in another order. -/
theorem distinctIds (h : c.Rearranged d) (hids : c.DistinctIds) : d.DistinctIds :=
  (h.entities.map Entity.id).nodup_iff.mp hids

/-- Rearranged catalogs register the same names, in different orders. -/
theorem registrations (h : c.Rearranged d) (kind : TargetKind) :
    (registrations c kind).Perm (registrations d kind) := by
  cases kind with
  | component => exact (h.components.map _).append (h.components.flatMap_right _)
  | hook => exact h.hooks.map _
  | context => exact (h.contexts.map _).append (h.contexts.map _)
  | utility => exact (h.utilities.map _).append (h.utilities.flatMap_right _)
  | store => exact (h.stores.map _).append (h.stores.flatMap_right _)

/-- Without collisions there are none after rearranging. -/
theorem collisions (h : c.Rearranged d) (kind : TargetKind)
    (hzero : (indexOf c kind).collisions = 0) : (indexOf d kind).collisions = 0 :=
  CandidateIndex.collisions_perm _ _ (h.registrations kind) hzero

/-- Without collisions names are found alike after rearranging. -/
theorem answersAlike (h : c.Rearranged d) (hzero : ∀ kind, (indexOf c kind).collisions = 0) :
    c.AnswersAlike d :=
  fun kind => CandidateIndex.lookup_perm _ _ (h.registrations kind) (hzero kind)

end Rearranged

namespace AnswersAlike

/-- Catalogs that answer alike do so both ways. -/
theorem symm (h : c.AnswersAlike d) : d.AnswersAlike c :=
  fun kind => (h kind).symm

/-- Pages render the same components. -/
theorem renders (h : c.AnswersAlike d) (p : Page) (id : String) :
    Renders c p id ↔ Renders d p id := by
  simp only [Renders, h .component]

/-- Components import the same entities. -/
theorem imports (h : c.AnswersAlike d) (x : Component) (kind : TargetKind) (id : String) :
    Imports c x kind id ↔ Imports d x kind id := by
  have hlookup (other : TargetKind) : (indexOf c other).lookup = (indexOf d other).lookup := h other
  simp only [Imports, RefersTo, hlookup]

/-- The targets of a component are the same, in the same order. -/
theorem targetsOf (h : c.AnswersAlike d) (x : Component) (kind : TargetKind) :
    targetsOf (Indexes.ofCatalog c) x kind = targetsOf (Indexes.ofCatalog d) x kind := by
  have htarget (name : String) :
      importTarget (Indexes.ofCatalog c) x name = importTarget (Indexes.ofCatalog d) x name := by
    unfold importTarget
    congr 1
    funext other
    rw [targetIn_eq, targetIn_eq, h other]
  simp only [SiteAtlas.targetsOf, importReferencesOf, htarget]

end AnswersAlike

/-- With own identifiers a component imports the same, in order. -/
theorem Rearranged.targets (h : c.Rearranged d) (hids : c.DistinctIds) (halike : c.AnswersAlike d)
    (id : String) (kind : TargetKind) : c.targets id kind = d.targets id kind := by
  rw [targets_eq, targets_eq, lastWith?_perm Component.id _ _ hids.components h.components]
  simp only [halike.targetsOf]

/-- With own identifiers a component has the same closure. -/
theorem Rearranged.closureOf (h : c.Rearranged d) (hids : c.DistinctIds)
    (halike : c.AnswersAlike d) (x : Component) : closureOf c (Linking.ofCatalog c).adjacency x =
      closureOf d (Linking.ofCatalog d).adjacency x := by
  have htargets : (Linking.ofCatalog c).adjacency.targets =
      (Linking.ofCatalog d).adjacency.targets := by
    funext id kind
    exact h.targets hids halike id kind
  have hcomponents := lastWith?_perm Component.id _ _ hids.components h.components
  have hhooks := lastWith?_perm Hook.id _ _
    (hids.nodup_map c.hooks .hook _ (c.filter_label_entities .hook)) h.hooks
  have hcontexts := lastWith?_perm Context.id _ _
    (hids.nodup_map c.contexts .context _ (c.filter_label_entities .context)) h.contexts
  have hutilities := lastWith?_perm Utility.id _ _
    (hids.nodup_map c.utilities .utility _ (c.filter_label_entities .utility)) h.utilities
  have hreach : hookReach c = hookReach d := by
    funext hook
    simp only [hookReach, h.hooks.any_eq]
  simp only [SiteAtlas.closureOf, htargets, h.components.length_eq, hcomponents, hhooks, hcontexts,
    hutilities, hreach]

/-- Rearranging keeps the uses. -/
theorem Rearranged.uses (h : c.Rearranged d) (halike : c.AnswersAlike d) {e : Edge}
    (he : Uses table c e) : Uses table d e := by
  cases he with
  | renders p hp id hrenders =>
    exact .renders p (h.pages.mem_iff.mp hp) id ((halike.renders p id).mp hrenders)
  | imports x hx kind id himports =>
    exact .imports x (h.components.mem_iff.mp hx) kind id ((halike.imports x kind id).mp himports)
  | callsAction x hx a ha f hcalls =>
    exact .callsAction x (h.components.mem_iff.mp hx) a (h.serverActionFiles.mem_iff.mp ha) f hcalls

/-- Rearranging keeps the edges. -/
theorem Rearranged.linkedEdges (h : c.Rearranged d) (halike : c.AnswersAlike d) :
    linkedEdges table c (Linking.ofCatalog c) = linkedEdges table d (Linking.ofCatalog d) := by
  have hc := pairwise_linkedEdges table c
  have hd := pairwise_linkedEdges table d
  have hne {a b : Edge} (hlt : a.key < b.key) : a ≠ b := by
    rintro rfl
    exact lt_irrefl _ hlt
  -- A list in strict order is known by its members.
  refine List.Perm.eq_of_pairwise (fun a b _ _ hab hba => absurd hba (lt_asymm hab)) hc hd ?_
  refine (perm_ext_iff_of_nodup (hc.imp hne) (hd.imp hne)).mpr fun e => ?_
  rw [mem_linkedEdges, mem_linkedEdges]
  exact ⟨h.uses halike, h.symm.uses halike.symm⟩

/-- The same pages use a component after rearranging. -/
theorem Rearranged.mem_pagesUsing (h : c.Rearranged d) (halike : c.AnswersAlike d)
    (id route : String) :
    route ∈ (Linking.ofCatalog c).pagesUsing id ↔ route ∈ (Linking.ofCatalog d).pagesUsing id := by
  simp only [SiteAtlas.mem_pagesUsing, h.pages.mem_iff, halike.renders]

/-- The same components use an entity after rearranging. -/
theorem Rearranged.mem_componentsUsing (h : c.Rearranged d) (halike : c.AnswersAlike d)
    (kind : TargetKind) (id name : String) : name ∈ (Linking.ofCatalog c).componentsUsing kind id ↔
      name ∈ (Linking.ofCatalog d).componentsUsing kind id := by
  simp only [SiteAtlas.mem_componentsUsing, h.components.mem_iff, halike.imports]

/-- With own identifiers use lists are the same up to order. -/
theorem Rearranged.linkAll {α : Type} (u : UseList α) (h : c.Rearranged d)
    (halike : c.AnswersAlike d) (items others : List α) (hperm : items.Perm others)
    (hnodup : (items.map u.id).Nodup) (x : α) (hx : x ∈ u.linkAll (Linking.ofCatalog c) items) :
    ∃ y ∈ u.linkAll (Linking.ofCatalog d) others, u.id y = u.id x ∧ (u.uses x).Perm (u.uses y) := by
  rw [UseList.linkAll, mapLast_eq_map _ _ _ hnodup] at hx
  obtain ⟨a, ha, rfl⟩ := mem_map.mp hx
  refine ⟨u.link (Linking.ofCatalog d) a, ?_, ?_, ?_⟩
  · rw [UseList.linkAll, mapLast_eq_map _ _ _ ((hperm.map u.id).nodup_iff.mp hnodup)]
    exact mem_map_of_mem (hperm.mem_iff.mp ha)
  · rw [UseList.link, u.id_set, UseList.link, u.id_set]
  · rw [UseList.link, u.uses_set, UseList.link, u.uses_set]
    exact addAll_perm _ _ _ (h.mem_componentsUsing halike u.kind (u.id a))

/-- With own identifiers, back-references are the same up to order. -/
theorem Rearranged.linkedComponents (h : c.Rearranged d) (hids : c.DistinctIds)
    (halike : c.AnswersAlike d) (x : Component)
    (hx : x ∈ mapLast Component.id (linkUses (Linking.ofCatalog c))
      (c.components.map (linkOwn table c (Linking.ofCatalog c)))) :
    ∃ y ∈ mapLast Component.id (linkUses (Linking.ofCatalog d))
        (d.components.map (linkOwn table d (Linking.ofCatalog d))),
      y.id = x.id ∧ x.usedInPages.Perm y.usedInPages ∧
        x.usedInComponents.Perm y.usedInComponents ∧ x.allDependencies = y.allDependencies := by
  rw [mapLast_eq_map _ _ _ (hids.linkOwn table), map_map] at hx
  obtain ⟨a, ha, rfl⟩ := mem_map.mp hx
  refine ⟨linkUses (Linking.ofCatalog d) (linkOwn table d (Linking.ofCatalog d) a), ?_, rfl, ?_, ?_,
    ?_⟩
  · rw [mapLast_eq_map _ _ _ ((h.distinctIds hids).linkOwn table), map_map]
    exact mem_map_of_mem (h.components.mem_iff.mp ha)
  · exact addAll_perm _ _ _ (h.mem_pagesUsing halike a.id)
  · exact addAll_perm _ _ _ (h.mem_componentsUsing halike .component a.id)
  · exact congrArg some (h.closureOf hids halike a)

end Catalog

/-- Rearranging keeps covered routes. -/
theorem coveredRoutes_perm [Host] (routes others matchers found : List String)
    (hperm : routes.Perm others) (h : coveredRoutes routes matchers = .ok found) :
    ∃ same, coveredRoutes others matchers = .ok same ∧ found.Perm same := by
  unfold coveredRoutes at h ⊢
  by_cases hempty : matchers.isEmpty = true
  · rw [if_pos hempty] at h ⊢
    cases h
    exact ⟨others, rfl, hperm⟩
  · rw [if_neg hempty] at h ⊢
    cases hread : matchers.mapM fun matcher => Route.readMatcher matcher.toList with
    | error e =>
      rw [hread] at h
      cases h
    | ok patterns =>
      rw [hread] at h
      cases h
      exact ⟨_, rfl, hperm.filter _⟩

/-- Linked middleware is there too, with the same routes. -/
theorem Catalog.Rearranged.linkedMiddleware [Host] {c d : Catalog} (h : c.Rearranged d)
    (hsame : c.middleware = d.middleware) (middleware : Option Middleware)
    (hlinked : linkedMiddleware c = .ok middleware) :
    ∃ other, SiteAtlas.linkedMiddleware d = .ok other ∧
      Option.Rel (fun m n => m.usedIn.Perm n.usedIn) middleware other := by
  rw [linkedMiddleware_eq_ok_iff] at hlinked
  simp only [linkedMiddleware_eq_ok_iff, ← hsame]
  rcases hlinked with ⟨hnone, rfl⟩ | ⟨m, routes, hsome, hcovered, rfl⟩
  · exact ⟨none, Or.inl ⟨hnone, rfl⟩, .none⟩
  · have hroutes : (pageRoutes c).Perm (pageRoutes d) := (h.pages.filter _).map _
    obtain ⟨same, hcoveredToo, hperm⟩ := coveredRoutes_perm _ _ _ _ hroutes hcovered
    exact ⟨_, Or.inr ⟨m, same, hsome, hcoveredToo, rfl⟩,
      .some (addAll_perm _ _ _ fun _ => hperm.mem_iff)⟩

/-- Two linked catalogs have the same edges, and entities of one identifier have the same closure
and back-references up to order. -/
structure SameUses (linked other : Catalog) : Prop where
  edges : linked.edges = other.edges
  components : ∀ x ∈ linked.components, ∃ y ∈ other.components, y.id = x.id ∧
    x.usedInPages.Perm y.usedInPages ∧ x.usedInComponents.Perm y.usedInComponents ∧
      x.allDependencies = y.allDependencies
  hooks : ∀ x ∈ linked.hooks, ∃ y ∈ other.hooks, y.id = x.id ∧ x.usedIn.Perm y.usedIn
  contexts : ∀ x ∈ linked.contexts, ∃ y ∈ other.contexts, y.id = x.id ∧ x.usedIn.Perm y.usedIn
  utilities : ∀ x ∈ linked.utilities, ∃ y ∈ other.utilities, y.id = x.id ∧ x.usedIn.Perm y.usedIn
  stores : ∀ x ∈ linked.stores, ∃ y ∈ other.stores, y.id = x.id ∧ x.usedIn.Perm y.usedIn

/-- Rearranging keeps all uses. -/
theorem Catalog.Rearranged.sameUses [Host] {c d linked other : Catalog} {table : AliasTable}
    (h : c.Rearranged d) (hids : c.DistinctIds) (halike : c.AnswersAlike d)
    (hlinked : c.link table = .ok linked) (hother : d.link table = .ok other) :
    SameUses linked other := by
  obtain ⟨middleware, -, rfl⟩ := (c.link_eq_ok_iff table linked).mp hlinked
  obtain ⟨middlewareToo, -, rfl⟩ := (d.link_eq_ok_iff table other).mp hother
  have hnodup {α : Type} (items : List α) (toEntity : α → Entity) (kind : TargetKind)
      (hitems : c.entitiesOf kind = items.map toEntity) :=
    hids.nodup_map items toEntity _ ((c.filter_label_entities kind).trans hitems)
  exact
    { edges := h.linkedEdges halike
      components := h.linkedComponents hids halike
      hooks := h.linkAll Hook.useList halike _ _ h.hooks (hnodup c.hooks .hook .hook rfl)
      contexts :=
        h.linkAll Context.useList halike _ _ h.contexts (hnodup c.contexts .context .context rfl)
      utilities :=
        h.linkAll Utility.useList halike _ _ h.utilities (hnodup c.utilities .utility .utility rfl)
      stores := h.linkAll Store.useList halike _ _ h.stores (hnodup c.stores .store .store rfl) }

/-- Without collisions the order of entities does not matter: if all identifiers differ and no index
counts a collision, then none does after rearranging, components import the same, and linking gives
the same edges, closures and back-references. With the same middleware, linking succeeds for both
or neither. -/
theorem link_order_independent [Host] (c d : Catalog) (table : AliasTable) (hids : c.DistinctIds)
    (hperm : c.Rearranged d) (hzero : ∀ kind, (indexOf c kind).collisions = 0) :
    (∀ kind, (indexOf d kind).collisions = 0) ∧ (∀ id kind, c.targets id kind = d.targets id kind) ∧
      ∀ linked, c.link table = .ok linked →
        (∀ other, d.link table = .ok other → SameUses linked other) ∧
        (c.middleware = d.middleware → ∃ other, d.link table = .ok other ∧
          Option.Rel (fun m n => m.usedIn.Perm n.usedIn) linked.middleware other.middleware) := by
  have halike := hperm.answersAlike hzero
  refine ⟨fun kind => hperm.collisions kind (hzero kind), hperm.targets hids halike, ?_⟩
  intro linked hlinked
  refine ⟨fun other => hperm.sameUses hids halike hlinked, ?_⟩
  intro hsame
  obtain ⟨middleware, hmiddleware, rfl⟩ := (c.link_eq_ok_iff table linked).mp hlinked
  obtain ⟨same, hsameLinked, hrel⟩ := hperm.linkedMiddleware hsame middleware hmiddleware
  exact ⟨_, (d.link_eq_ok_iff table _).mpr ⟨same, hsameLinked, rfl⟩, hrel⟩

/-- The small site with its components and hooks in reverse order. -/
def reversedCatalog : Catalog :=
  { menuCatalog with
    components := menuCatalog.components.reverse
    hooks := menuCatalog.hooks.reverse }

section

attribute [local instance] Host.usual

/-- The small site reversed has the same edges and routes. -/
theorem link_order_independent_reversedCatalog :
    menuCatalog.DistinctIds ∧ menuCatalog.Rearranged reversedCatalog ∧
      (∀ kind, (indexOf menuCatalog kind).collisions = 0) ∧
      ∃ linked other, menuCatalog.link noAliases = .ok linked ∧
        reversedCatalog.link noAliases = .ok other ∧ linked.components ≠ other.components ∧
        linked.edges = other.edges ∧ SameUses linked other := by
  have hids : menuCatalog.DistinctIds := by
    unfold Catalog.DistinctIds
    decide
  have hperm : menuCatalog.Rearranged reversedCatalog :=
    ⟨.refl _, (List.reverse_perm _).symm, (List.reverse_perm _).symm, .refl _, .refl _, .refl _,
      .refl _⟩
  have hzero : ∀ kind, (indexOf menuCatalog kind).collisions = 0 := by
    intro kind
    cases kind <;> decide
  obtain ⟨-, -, hlink⟩ :=
    link_order_independent menuCatalog reversedCatalog noAliases hids hperm hzero
  have hsame := (hlink _ rfl).1 _ rfl
  exact ⟨hids, hperm, hzero, _, _, rfl, rfl, by decide, hsame.edges, hsame⟩

end

end SiteAtlas
