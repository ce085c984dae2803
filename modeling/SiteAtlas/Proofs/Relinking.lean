import SiteAtlas.Proofs.Linked

/-!
# Linking twice

What linking learns is the same if what linking adds is taken away first. So a second run learns
the same and adds only what is there already.
-/

namespace SiteAtlas

open List

variable (indexes : Indexes) (c : Catalog) (table : AliasTable) (kind : TargetKind) (x : Component)

/-- An import reference without what linking adds to its component. -/
def ImportReference.bare (r : ImportReference) : ImportReference :=
  { r with component := r.component.bare }

/-- Bare components are those made bare. -/
theorem components_bare : c.bare.components = c.components.map Component.bare := rfl

/-- What linking adds is not registered. -/
theorem registrations_bare : registrations c.bare kind = registrations c kind := by
  cases kind <;> simp only [registrations, Catalog.bare, map_map, flatMap_map] <;> rfl

/-- Indexes do not depend on what linking adds. -/
theorem indexes_bare : Indexes.ofCatalog c.bare = Indexes.ofCatalog c := by
  have hindex : indexOf c.bare = indexOf c := by
    funext kind
    rw [indexOf, registrations_bare, indexOf]
  rw [Indexes.ofCatalog, hindex, Indexes.ofCatalog]

/-- The references of a component do not depend on what linking adds. -/
theorem importReferencesOf_bare : importReferencesOf indexes x.bare =
      (importReferencesOf indexes x).map ImportReference.bare := by
  unfold importReferencesOf
  rw [map_filterMap]
  congr 1
  funext name
  rw [Option.map_map]
  rfl

/-- The references of all components do not depend on what linking adds. -/
theorem importReferences_bare :
    importReferences indexes c.bare = (importReferences indexes c).map ImportReference.bare := by
  unfold importReferences
  rw [map_flatMap]
  rw [components_bare, flatMap_map]
  simp only [importReferencesOf_bare]

/-- The targets of a component do not depend on what linking adds. -/
theorem targetsOf_bare (kind : TargetKind) :
    targetsOf indexes x.bare kind = targetsOf indexes x kind := by
  unfold targetsOf
  rw [importReferencesOf_bare, filter_map, map_map]
  rfl

/-- The imports of a catalog do not depend on what linking adds. -/
theorem adjacency_bare : Adjacency.ofCatalog indexes c.bare = Adjacency.ofCatalog indexes c := by
  unfold Adjacency.ofCatalog
  rw [components_bare, foldl_map]
  have htargets (x : Component) :
      Targets.ofComponent indexes x.bare = Targets.ofComponent indexes x := by
    simp only [Targets.ofComponent, PerKind.ofFn, targetsOf_bare]
  simp only [htargets]
  rfl

/-- The pages that use a component do not depend on what linking adds. -/
theorem pagesUsing_bare (id : String) :
    (Linking.ofCatalog c.bare).pagesUsing id = (Linking.ofCatalog c).pagesUsing id := by
  simp only [Linking.pagesUsing, Linking.ofCatalog, indexes_bare]
  rfl

/-- The components that use an entity do not depend on what linking adds. -/
theorem componentsUsing_bare (id : String) : (Linking.ofCatalog c.bare).componentsUsing kind id =
      (Linking.ofCatalog c).componentsUsing kind id := by
  simp only [Linking.componentsUsing, Linking.ofCatalog, indexes_bare, importReferences_bare,
    filter_map, map_map]
  rfl

/-- Closures do not depend on what linking adds. -/
theorem closureOf_bare (adjacency : Adjacency) (x : Component) :
    closureOf c.bare adjacency x = closureOf c adjacency x := by
  have hhooks (ids : List String) :
      (ids.filterMap (lastWith? Hook.id c.bare.hooks)).flatMap (hookReach c.bare) =
        (ids.filterMap (lastWith? Hook.id c.hooks)).flatMap (hookReach c) := by
    have hfound : lastWith? Hook.id c.bare.hooks = fun id =>
        (lastWith? Hook.id c.hooks id).map Hook.useList.bare := by
      funext id
      exact lastWith?_map Hook.useList.bare Hook.id c.hooks id
    rw [hfound, ← map_filterMap, flatMap_map]
    simp only [hookReach, Catalog.bare, any_map]
    rfl
  simp only [closureOf, hhooks]
  simp only [Catalog.bare, length_map, lastWith?_map, Option.map_map]
  rfl

/-- What a component gains for itself does not depend on what linking adds. -/
theorem linkOwn_bare (c : Catalog) :
    linkOwn table c.bare (Linking.ofCatalog c.bare) = linkOwn table c (Linking.ofCatalog c) := by
  funext x
  simp only [linkOwn, closureOf_bare, Linking.ofCatalog, indexes_bare, adjacency_bare]
  rfl

/-- Edges do not depend on what linking adds. -/
theorem linkedEdges_bare (c : Catalog) : linkedEdges table c.bare (Linking.ofCatalog c.bare) =
      linkedEdges table c (Linking.ofCatalog c) := by
  simp only [linkedEdges, Linking.ofCatalog, indexes_bare, importReferences_bare, map_map]
  rw [components_bare, flatMap_map]
  rfl

/-- Whether there is a reference to the function of the file. -/
def hasAction (refs : List ServerActionRef) (r : ActionReference) : Bool :=
  refs.any fun ref => ref.functionName == r.function && ref.sourceFilePath == r.action.filePath

/-- A noted action is not added. -/
theorem addAction_of_hasAction (refs : List ServerActionRef) (r : ActionReference)
    (h : hasAction refs r = true) : addAction refs r = refs :=
  if_pos h

/-- A reference that is missing is added. -/
theorem addAction_of_not_hasAction (refs : List ServerActionRef) (r : ActionReference)
    (h : ¬hasAction refs r = true) :
    addAction refs r = refs ++ [⟨r.function, r.action.relativePath, r.action.filePath⟩] :=
  if_neg h

/-- Adding references notes each pair of function and file once. -/
theorem notesOnce_addAction : NotesOnce (hasAction · · = true) addAction where
  add_of_noted := addAction_of_hasAction _ _
  noted_add refs r := by
    by_cases h : hasAction refs r = true
    · rw [addAction_of_hasAction refs r h]
      exact h
    · rw [addAction_of_not_hasAction refs r h]
      simp [hasAction]
  noted_add_of_noted {refs r} other h := by
    by_cases hother : hasAction refs other = true
    · rw [addAction_of_hasAction refs other hother]
      exact h
    · rw [addAction_of_not_hasAction refs other hother]
      unfold hasAction at *
      rw [any_append, h, Bool.true_or]

/-- What a component gains for itself is gained once. -/
theorem linkOwn_linkOwn (c : Catalog) (l : Linking) (x : Component) :
    linkOwn table c l (linkOwn table c l x) = linkOwn table c l x := by
  have hactions := notesOnce_addAction.foldl_foldl x.serverActions (actionReferencesOf table c x)
  change { x with
    serverActions := (actionReferencesOf table c x).foldl addAction
      ((actionReferencesOf table c x).foldl addAction x.serverActions)
    allDependencies := some (closureOf c l.adjacency x) } = _
  rw [hactions]
  rfl

/-- Back-references are gained once. -/
theorem linkUses_linkUses (l : Linking) (x : Component) :
    linkUses l (linkUses l x) = linkUses l x := by
  change { x with
    usedInPages := addAll (addAll x.usedInPages (l.pagesUsing x.id)) (l.pagesUsing x.id)
    usedInComponents := addAll (addAll x.usedInComponents (l.componentsUsing .component x.id))
      (l.componentsUsing .component x.id) } = _
  rw [addAll_addAll, addAll_addAll]
  rfl

/-- Linking the components of a linked catalog changes nothing. -/
theorem relink_components (c : Catalog) (l : Linking) (items : List Component) :
    mapLast Component.id (linkUses l)
        ((mapLast Component.id (linkUses l) (items.map (linkOwn table c l))).map
          (linkOwn table c l)) =
      mapLast Component.id (linkUses l) (items.map (linkOwn table c l)) := by
  -- The two changes write different fields, so both rounds of each can be brought together.
  rw [map_mapLast_comm Component.id (linkUses l) (linkOwn table c l) (fun _ => rfl) (fun _ => rfl),
    mapLast_mapLast Component.id (linkUses l) (linkUses l) (fun _ => rfl), map_map]
  have huses : linkUses l ∘ linkUses l = linkUses l := funext (linkUses_linkUses l)
  have hown : linkOwn table c l ∘ linkOwn table c l = linkOwn table c l :=
    funext (linkOwn_linkOwn table c l)
  rw [huses, hown]

/-- Linking middleware that was linked leaves it as it is. -/
theorem relink_middleware [Host] (linked : Catalog) (middleware : Option Middleware)
    (h : linkedMiddleware c = .ok middleware) (hroutes : pageRoutes linked = pageRoutes c)
    (hlinked : linked.middleware = middleware) : linkedMiddleware linked = .ok middleware := by
  rw [linkedMiddleware_eq_ok_iff] at h ⊢
  rw [hroutes, hlinked]
  rcases h with ⟨-, rfl⟩ | ⟨m, routes, -, hcovered, rfl⟩
  · exact Or.inl ⟨rfl, rfl⟩
  · refine Or.inr ⟨_, routes, rfl, hcovered, ?_⟩
    rw [addAll_addAll]

/-- Catalogs that differ only in what linking adds teach it the same. -/
theorem Catalog.linkedFrom_congr (known other : Catalog) (table : AliasTable)
    (middleware : Option Middleware) (h : known.bare = other.bare) :
    c.linkedFrom known table middleware = c.linkedFrom other table middleware := by
  have hcomponents (kind : TargetKind) (id : String) :
      (Linking.ofCatalog known).componentsUsing kind id =
        (Linking.ofCatalog other).componentsUsing kind id := by
    rw [← componentsUsing_bare, h, componentsUsing_bare]
  have hpages (id : String) :
      (Linking.ofCatalog known).pagesUsing id = (Linking.ofCatalog other).pagesUsing id := by
    rw [← pagesUsing_bare, h, pagesUsing_bare]
  have huses : linkUses (Linking.ofCatalog known) = linkUses (Linking.ofCatalog other) := by
    funext x
    simp only [linkUses, hcomponents, hpages]
  have hown : linkOwn table known (Linking.ofCatalog known) =
      linkOwn table other (Linking.ofCatalog other) := by
    rw [← linkOwn_bare, h, linkOwn_bare]
  have hedges : linkedEdges table known (Linking.ofCatalog known) =
      linkedEdges table other (Linking.ofCatalog other) := by
    rw [← linkedEdges_bare, h, linkedEdges_bare]
  have hall {α : Type} (u : UseList α) :
      u.linkAll (Linking.ofCatalog known) = u.linkAll (Linking.ofCatalog other) := by
    funext items
    unfold UseList.linkAll UseList.link
    simp only [hcomponents]
  simp only [linkedFrom, huses, hown, hedges, hall]

/-- What was learned once is not added again. -/
theorem Catalog.linkedFrom_linkedFrom (known : Catalog) (table : AliasTable)
    (middleware : Option Middleware) :
    (c.linkedFrom known table middleware).linkedFrom known table middleware =
      c.linkedFrom known table middleware := by
  simp only [linkedFrom, relink_components, UseList.linkAll_linkAll]

/-- A linked catalog can be linked again, and stays as it is. -/
theorem link_idempotent [Host] (c : Catalog) (table : AliasTable) (linked : Catalog)
    (h : c.link table = .ok linked) : linked.link table = .ok linked := by
  have hbare := Catalog.bare_link h
  obtain ⟨middleware, hmiddleware, hlinked⟩ := (c.link_eq_ok_iff table linked).mp h
  have hroutes : pageRoutes linked = pageRoutes c := by
    rw [pageRoutes, Catalog.pages_link h, pageRoutes]
  have hfound : linked.middleware = middleware := by
    rw [hlinked]
    rfl
  rw [Catalog.link_eq_ok_iff]
  refine ⟨middleware, relink_middleware c linked middleware hmiddleware hroutes hfound, ?_⟩
  calc
    linked = c.linkedFrom c table middleware := hlinked
    _ = (c.linkedFrom c table middleware).linkedFrom c table middleware :=
      (c.linkedFrom_linkedFrom c table middleware).symm
    _ = linked.linkedFrom c table middleware := by rw [← hlinked]
    _ = linked.linkedFrom linked table middleware :=
      (linked.linkedFrom_congr linked c table middleware hbare).symm

/-- The small site with every component twice, the second used. -/
def repeatedCatalog : Catalog :=
  { menuCatalog with
    components := menuCatalog.components ++
      menuCatalog.components.map fun x => { x with usedInComponents := ["Other", "Menu"] } }

section

attribute [local instance] Host.usual

/-- Linking a catalog with repetitions and earlier notes changes it, and linking it again does not.
-/
theorem link_idempotent_repeatedCatalog : ∃ linked, repeatedCatalog.link noAliases = .ok linked ∧
      linked.middleware ≠ repeatedCatalog.middleware ∧ linked.link noAliases = .ok linked :=
  ⟨_, rfl, by decide, link_idempotent repeatedCatalog noAliases _ rfl⟩

end

end SiteAtlas
