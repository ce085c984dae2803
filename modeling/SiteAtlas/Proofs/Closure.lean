import SiteAtlas.Proofs.Linked
import SiteAtlas.Proofs.References
import SiteAtlas.Proofs.Walk

/-!
# Closures are reachability

The closure of a component names everything that it reaches through its imports. The walk that
collects it ends on every catalog, as it visits each component at most once.
-/

namespace SiteAtlas

open List

variable (c : Catalog) (start : String) (kind : TargetKind) (id : String)

namespace Catalog

/-- What the component with an identifier imports of a kind. -/
def targets (c : Catalog) (id : String) (kind : TargetKind) : List String :=
  (Linking.ofCatalog c).adjacency.targets id kind

/-- One component reaches another through imports of components. -/
def Reaches (c : Catalog) : String → String → Prop :=
  SiteAtlas.Reaches (c.targets · .component)

/-- The last component of an identifier says what is imported. -/
theorem targets_eq (kind : TargetKind) :
    c.targets id kind = ((lastWith? Component.id c.components id).map
      (targetsOf (Indexes.ofCatalog c) · kind)).getD [] := by
  change ((Keyed.get? (c.components.foldl (fun (table : Adjacency) component =>
    table.put component.id (Targets.ofComponent (Indexes.ofCatalog c) component)) []) id).map
      (·.get kind)).getD [] = _
  rw [get?_foldl_put, Keyed.get?_nil, Option.or_none, Option.map_map]
  simp only [Function.comp_def, Targets.ofComponent, PerKind.get_ofFn]

/-- What a component imports of a kind is noted once. -/
theorem nodup_targets (kind : TargetKind) : (c.targets id kind).Nodup := by
  rw [targets_eq]
  cases lastWith? Component.id c.components id with
  | none => exact nodup_nil
  | some x => exact nodup_unique _

/-- A target is imported. -/
theorem imports_of_mem_targets (kind : TargetKind) (target : String)
    (h : target ∈ c.targets id kind) : ∃ x ∈ c.components, x.id = id ∧ Imports c x kind target := by
  rw [targets_eq] at h
  cases hlast : lastWith? Component.id c.components id with
  | none => simp [hlast] at h
  | some x =>
    obtain ⟨hx, hid⟩ := mem_of_lastWith? _ _ _ _ hlast
    rw [hlast] at h
    exact ⟨x, hx, hid, (mem_targetsOf c x kind target).mp h⟩

/-- A target is an entity of its kind. -/
theorem exists_entity_of_mem_targets (kind : TargetKind) (target : String)
    (h : target ∈ c.targets id kind) : ∃ e ∈ c.entitiesOf kind, e.id = target := by
  obtain ⟨x, -, -, name, -, before, after, -, ⟨hlookup, -⟩, -⟩ :=
    c.imports_of_mem_targets id kind target h
  exact exists_entity_of_lookup c kind name target hlookup

/-- A target has its kind's label. -/
theorem idLabel_of_mem_targets (kind : TargetKind) (target : String)
    (h : target ∈ c.targets id kind) : idLabel target = kind.label.toList := by
  obtain ⟨e, he, rfl⟩ := c.exists_entity_of_mem_targets id kind target h
  rw [e.idLabel_id, ((c.mem_entitiesOf kind e).mp he).2]

/-- Only the start and components can be reached. -/
theorem mem_ids_of_reaches (h : c.Reaches start id) :
    id ∈ start :: c.components.map Component.id := by
  rcases Relation.ReflTransGen.cases_tail h with rfl | ⟨previous, -, hstep⟩
  · exact mem_cons_self
  · obtain ⟨e, he, rfl⟩ := c.exists_entity_of_mem_targets previous .component id hstep
    obtain ⟨x, hx, rfl⟩ := mem_map.mp he
    exact mem_cons_of_mem _ (mem_map.mpr ⟨x, hx, rfl⟩)

/-- Whatever is reached beyond the start is a component. -/
theorem idLabel_of_reaches (h : c.Reaches start id) (hne : id ≠ start) :
    idLabel id = TargetKind.component.label.toList := by
  rcases Relation.ReflTransGen.cases_tail h with heq | ⟨previous, -, hstep⟩
  · exact absurd heq hne
  · exact c.idLabel_of_mem_targets previous .component id hstep

/-- The walk that collects a closure. -/
def walkFrom (c : Catalog) (start : String) : Walk :=
  Walk.from (c.targets · .component) c.components.length start

/-- The invariant holds when a walk ends. -/
theorem invariant_walkFrom : Walk.Invariant (c.targets · .component) start (c.walkFrom start) :=
  Walk.invariant_initial.finish _ (fun id => c.nodup_targets id .component) _

/-- The walk ends with nothing left to visit. -/
theorem stack_walkFrom : (c.walkFrom start).stack = [] := by
  -- The start need not be a component of the catalog, hence the one turn more than components.
  apply Walk.stack_finish _ Walk.invariant_initial (fun id => c.nodup_targets id .component)
    (start :: c.components.map Component.id) (c.mem_ids_of_reaches start)
  simp

/-- A walk visits what can be reached. -/
theorem mem_visited_walkFrom : id ∈ (c.walkFrom start).visited ↔ c.Reaches start id :=
  (c.invariant_walkFrom start).mem_visited_iff _ (c.stack_walkFrom start) id

/-- The walk meets exactly what can be reached. -/
theorem mem_met_walkFrom :
    id ∈ (c.walkFrom start).met.drop 1 ↔ c.Reaches start id ∧ id ≠ start := by
  rw [(c.invariant_walkFrom start).mem_drop_one,
    (c.invariant_walkFrom start).mem_met_iff _ (c.stack_walkFrom start)]
  rfl

/-- An identifier of a kind has one name in list and table. -/
theorem map_name_eq_some_iff {α : Type} (items : List α) (toEntity : α → Entity) (name : α → String)
    (hitems : c.entitiesOf kind = items.map toEntity) (hname : ∀ a, (toEntity a).name = name a)
    (id : String) (hid : idLabel id = kind.label.toList) (n : String) :
    (lastWith? (fun a => (toEntity a).id) items id).map name = some n ↔
      ∃ e, c.entity? id = some e ∧ e.name = n := by
  rw [← Option.map_eq_some_iff, c.entity?_eq_of_label kind id hid, hitems, lastWith?_map,
    Option.map_map, show Entity.name ∘ toEntity = name from funext hname]
  rfl

/-- A closure collects the names of what is reached. -/
theorem mem_reachedNames (name? : String → Option String)
    (hname : ∀ id, idLabel id = kind.label.toList →
      ∀ n, name? id = some n ↔ ∃ e, c.entity? id = some e ∧ e.name = n) (n : String) :
    n ∈ Text.unique (((c.walkFrom start).visited.flatMap (c.targets · kind)).filterMap name?) ↔
      ∃ r id e, c.Reaches start r ∧ id ∈ c.targets r kind ∧ c.entity? id = some e ∧ e.name = n := by
  simp only [mem_unique, mem_filterMap, mem_flatMap, mem_visited_walkFrom]
  constructor
  · rintro ⟨id, ⟨r, hreach, hid⟩, hn⟩
    obtain ⟨e, he, hen⟩ := (hname id (c.idLabel_of_mem_targets r kind id hid) n).mp hn
    exact ⟨r, id, e, hreach, hid, he, hen⟩
  · rintro ⟨r, id, e, hreach, hid, he, hen⟩
    exact ⟨id, ⟨r, hreach, hid⟩,
      (hname id (c.idLabel_of_mem_targets r kind id hid) n).mpr ⟨e, he, hen⟩⟩

end Catalog

/-- A closure is exact for a component: it names, once each, the other components reached, the
contexts and utilities that any of them imports, and the hooks with those dependencies that are
names of hooks. -/
structure IsClosure (c : Catalog) (start : String) (d : DependencyClosure) : Prop where
  nodup : d.components.Nodup ∧ d.hooks.Nodup ∧ d.contexts.Nodup ∧ d.utilities.Nodup
  components : ∀ n, n ∈ d.components ↔
    ∃ r e, c.Reaches start r ∧ r ≠ start ∧ c.entity? r = some e ∧ e.name = n
  contexts : ∀ n, n ∈ d.contexts ↔
    ∃ r id e, c.Reaches start r ∧ id ∈ c.targets r .context ∧ c.entity? id = some e ∧ e.name = n
  utilities : ∀ n, n ∈ d.utilities ↔
    ∃ r id e, c.Reaches start r ∧ id ∈ c.targets r .utility ∧ c.entity? id = some e ∧ e.name = n
  hooks : ∀ n, n ∈ d.hooks ↔
    ∃ r id h, c.Reaches start r ∧ id ∈ c.targets r .hook ∧ c.entity? id = some (.hook h) ∧
      (n = h.name ∨ n ∈ h.dependencies ∧ ∃ other ∈ c.hooks, other.name = n)

/-- What a hook brings into a closure. -/
theorem mem_hookReach (h : Hook) (n : String) :
    n ∈ hookReach c h ↔ n = h.name ∨ n ∈ h.dependencies ∧ ∃ other ∈ c.hooks, other.name = n := by
  simp [hookReach, mem_filter]

/-- A closure has the components reached but the start. -/
theorem mem_components_closureOf (y : Component) (n : String) :
    n ∈ (closureOf c (Linking.ofCatalog c).adjacency y).components ↔
      ∃ r e, c.Reaches y.id r ∧ r ≠ y.id ∧ c.entity? r = some e ∧ e.name = n := by
  have hname (id : String) (hid : idLabel id = TargetKind.component.label.toList) :=
    c.map_name_eq_some_iff .component c.components .component (·.name) rfl (fun _ => rfl) id hid n
  change n ∈ Text.unique (((c.walkFrom y.id).met.drop 1).filterMap _) ↔ _
  simp only [mem_unique, mem_filterMap, Catalog.mem_met_walkFrom]
  constructor
  · rintro ⟨r, ⟨hreach, hne⟩, hn⟩
    obtain ⟨e, he, hen⟩ := (hname r (c.idLabel_of_reaches y.id r hreach hne)).mp hn
    exact ⟨r, e, hreach, hne, he, hen⟩
  · rintro ⟨r, e, hreach, hne, he, hen⟩
    exact ⟨r, ⟨hreach, hne⟩, (hname r (c.idLabel_of_reaches y.id r hreach hne)).mpr ⟨e, he, hen⟩⟩

/-- A closure has imported hooks and their dependencies. -/
theorem mem_hooks_closureOf (y : Component) (n : String) :
    n ∈ (closureOf c (Linking.ofCatalog c).adjacency y).hooks ↔
      ∃ r id h, c.Reaches y.id r ∧ id ∈ c.targets r .hook ∧ c.entity? id = some (.hook h) ∧
        (n = h.name ∨ n ∈ h.dependencies ∧ ∃ other ∈ c.hooks, other.name = n) := by
  have hentity (r id : String) (hid : id ∈ c.targets r .hook) (h : Hook) :
      lastWith? Hook.id c.hooks id = some h ↔ c.entity? id = some (.hook h) := by
    rw [c.entity?_eq_of_label .hook id (c.idLabel_of_mem_targets r .hook id hid),
      Catalog.entitiesOf, lastWith?_map, Option.map_eq_some_iff]
    constructor
    · intro hfound
      exact ⟨h, hfound, rfl⟩
    · rintro ⟨found, hfound, heq⟩
      cases heq
      exact hfound
  change n ∈ Text.unique ((((c.walkFrom y.id).visited.flatMap (c.targets · .hook)).filterMap
    (lastWith? Hook.id c.hooks)).flatMap (hookReach c)) ↔ _
  simp only [mem_unique, mem_flatMap, mem_filterMap, Catalog.mem_visited_walkFrom, mem_hookReach]
  constructor
  · rintro ⟨h, ⟨id, ⟨r, hreach, hid⟩, hfound⟩, hn⟩
    exact ⟨r, id, h, hreach, hid, (hentity r id hid h).mp hfound, hn⟩
  · rintro ⟨r, id, h, hreach, hid, hfound, hn⟩
    exact ⟨h, ⟨id, ⟨r, hreach, hid⟩, (hentity r id hid h).mpr hfound⟩, hn⟩

/-- The closure that linking computes is exact. -/
theorem isClosure_closureOf (y : Component) :
    IsClosure c y.id (closureOf c (Linking.ofCatalog c).adjacency y) where
  nodup := ⟨nodup_unique _, nodup_unique _, nodup_unique _, nodup_unique _⟩
  components := mem_components_closureOf c y
  contexts := c.mem_reachedNames y.id .context _
    (c.map_name_eq_some_iff .context c.contexts .context (·.name) rfl (fun _ => rfl))
  utilities := c.mem_reachedNames y.id .utility _
    (c.map_name_eq_some_iff .utility c.utilities .utility (·.name) rfl (fun _ => rfl))
  hooks := mem_hooks_closureOf c y

/-- On every catalog the walk from any identifier ends: after one turn for each component and one
more nothing is left to visit. After linking, the closure of every component is exactly what it
reaches. -/
theorem linked_closures_reachability [Host] (c : Catalog) (table : AliasTable) :
    (∀ start, (c.walkFrom start).stack = [] ∧ ∀ turns, c.components.length < turns →
      (Walk.initial start).finish (c.targets · .component) turns = c.walkFrom start) ∧
    ∀ linked, c.link table = .ok linked → ∀ x ∈ linked.components,
      ∃ d, x.allDependencies = some d ∧ IsClosure c x.id d := by
  constructor
  · intro start
    refine ⟨c.stack_walkFrom start, ?_⟩
    intro turns hturns
    obtain ⟨extra, rfl⟩ := Nat.exists_eq_add_of_lt hturns
    rw [show c.components.length + extra + 1 = c.components.length + 1 + extra by omega,
      Walk.finish_add]
    exact Walk.finish_of_stack_nil _ extra (c.stack_walkFrom start)
  · intro linked hlinked x hx
    obtain ⟨y, -, hid, hclosure⟩ := Catalog.exists_of_mem_linked hlinked x hx
    rw [hid]
    exact ⟨_, hclosure, isClosure_closureOf c y⟩

section

attribute [local instance] Host.usual

/-- Two components that import each other are both reached, and so are a hook behind a hook and a
utility named like a component. -/
theorem linked_closures_menuCatalog :
    ∃ linked x d, menuCatalog.link noAliases = .ok linked ∧ x ∈ linked.components ∧
      x.name = "Frame" ∧ x.allDependencies = some d ∧ IsClosure menuCatalog x.id d ∧
      "Item" ∈ d.components ∧ "useFocus" ∈ d.hooks ∧ "item" ∈ d.utilities := by
  obtain ⟨d, hd, hclosure⟩ :=
    (linked_closures_reachability menuCatalog noAliases).2 _ rfl _ List.mem_cons_self
  have hmenu : menuCatalog.Reaches "component:/f" "component:/m" :=
    Relation.ReflTransGen.single (by decide)
  have hitem : menuCatalog.Reaches "component:/f" "component:/i" := hmenu.tail (by decide)
  refine ⟨_, _, d, rfl, List.mem_cons_self, rfl, hd, hclosure, ?_, ?_, ?_⟩
  · exact (hclosure.components "Item").mpr ⟨"component:/i", _, hitem, by decide, rfl, rfl⟩
  · exact (hclosure.hooks "useFocus").mpr ⟨"component:/m", "hook:useMenu@/h", _, hmenu, by decide,
      rfl, by decide⟩
  · exact (hclosure.utilities "item").mpr
      ⟨"component:/i", "utility:/u", _, hitem, by decide, rfl, rfl⟩

end

end SiteAtlas
