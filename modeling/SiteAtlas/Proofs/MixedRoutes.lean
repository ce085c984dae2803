import SiteAtlas.Proofs.DeclaredPages
import SiteAtlas.Proofs.RouteFields

/-!
# Sources that mix the ways to declare routes

What a shape finds in a source is what it finds line by line: the declaration that is written there
or nothing. Every wording has a shape that finds it, so together the shapes find the written
declarations, and each is kept once.
-/

namespace SiteAtlas

open List

namespace Route

/-- On the line of a declaration a shape finds given declarations, all of them the written one, and
between lines nothing. -/
structure Shape.Reports (shape : Shape) (found : Written → List Declaration) : Prop where
  finds : ∀ d, shape.Finds d.line.toList (found d)
  eq_declaration : ∀ d, ∀ x ∈ found d, x = d.declaration
  finds_blank : ∀ text, (∀ x ∈ text, Text.isBlank x = true) → shape.Finds text []

/-- A declaration given for one wording only is the written one. -/
theorem Written.eq_of_mem_only {wording : Wording} (d : Written) :
    ∀ x ∈ d.only wording, x = d.declaration := by
  intro x hx
  unfold only at hx
  split at hx
  · exact mem_singleton.mp hx
  · cases hx

namespace Shape

variable {shape : Shape} {found : Written → List Declaration}

/-- What lines report is found in turn. -/
theorem Reports.finds_lines (h : shape.Reports found) (ds : List Written) :
    shape.Finds (Text.join ['\n'] (ds.map (·.line.toList))) (ds.flatMap found) := by
  have hbreak : shape.Finds ['\n'] [] := h.finds_blank _ (all_eq_true.mp rfl)
  induction ds with
  | nil => exact shape.finds_nil
  | cons d ds ih =>
    cases ds with
    | nil =>
      rw [flatMap_cons, flatMap_nil, append_nil]
      exact h.finds d
    | cons next others =>
      have hline := ((h.finds d).append hbreak).append ih
      rw [append_nil] at hline
      exact hline

/-- A shape that begins with no blank reports from lines. -/
theorem reports_of_finds {first : Char} (hbegins : shape.pattern.Begins (· == first))
    (hfirst : Text.isBlank first = false)
    (hfinds : ∀ d : Written, shape.Finds d.line.toList (found d))
    (heq : ∀ d, ∀ x ∈ found d, x = d.declaration) : shape.Reports found where
  finds := hfinds
  eq_declaration := heq
  finds_blank := fun _ htext => finds_quiet hbegins fun hmem =>
    Bool.noConfusion (hfirst.symm.trans (htext first hmem))

/-- A shape reports the only wording that it finds. -/
theorem reports_only {first : Char} {wording : Wording}
    (hbegins : shape.pattern.Begins (· == first)) (hfirst : Text.isBlank first = false)
    (hfinds : ∀ d : Written, shape.Finds d.line.toList (d.only wording)) :
    shape.Reports (·.only wording) :=
  reports_of_finds hbegins hfirst hfinds Written.eq_of_mem_only

end Shape

/-- The shape made for a wording. -/
def Wording.shape : Wording → Shape
  | .tagPathFirst => taggedClosed
  | .tagElementFirst => taggedLast
  | .fieldPathFirst => fieldElement
  | .fieldElementFirst => fieldLast
  | .fieldNamed => fieldComponent
  | .fieldImported => fieldLazy

/-- A shape reports its own wording. -/
theorem Wording.reports_shape (wording : Wording) : wording.shape.Reports (·.only wording) := by
  cases wording with
  | tagPathFirst =>
    exact Shape.reports_only isTagged_closed.begins (by decide) finds_taggedClosed
  | tagElementFirst =>
    exact Shape.reports_only isTagged_last.begins (by decide) finds_taggedLast
  | fieldPathFirst =>
    exact Shape.reports_only isObject_element.begins (by decide) finds_fieldElement
  | fieldElementFirst =>
    exact Shape.reports_only isObject_last.begins (by decide) finds_fieldLast
  | fieldNamed =>
    exact Shape.reports_only isObject_component.begins (by decide) finds_fieldComponent
  | fieldImported =>
    exact Shape.reports_only isObject_lazy.begins (by decide) finds_fieldLazy

/-- The shapes that find a wording are known, and none is for an index. -/
theorem Wording.shape_mem (wording : Wording) :
    wording.shape ∈ shapes ∧ wording.shape.route ≠ .index := by
  cases wording <;> exact ⟨by simp [shape, shapes], by decide⟩

/-- Shapes report what is written or nothing, that for an index nothing. -/
theorem exists_reports {shape : Shape} (hshape : shape ∈ shapes) :
    ∃ found, shape.Reports found ∧ (shape.route = .index → ∀ d, found d = []) := by
  simp only [shapes, mem_cons, not_mem_nil, or_false] at hshape
  rcases hshape with rfl | rfl | rfl | rfl | rfl | rfl | rfl | rfl | rfl | rfl
  · exact ⟨_, Wording.tagPathFirst.reports_shape, fun h => by cases h⟩
  · exact ⟨_, Shape.reports_only isTagged_broken.begins (by decide) finds_taggedBroken,
      fun h => by cases h⟩
  · exact ⟨_, Shape.reports_only isTagged_near.begins (by decide) finds_taggedNear,
      fun h => by cases h⟩
  · exact ⟨_, Wording.tagElementFirst.reports_shape, fun h => by cases h⟩
  · exact ⟨_, Wording.fieldPathFirst.reports_shape, fun h => by cases h⟩
  · exact ⟨_, Wording.fieldElementFirst.reports_shape, fun h => by cases h⟩
  · exact ⟨_, Wording.fieldImported.reports_shape, fun h => by cases h⟩
  · exact ⟨_, Wording.fieldNamed.reports_shape, fun h => by cases h⟩
  · exact ⟨fun _ => [], Shape.reports_of_finds isObject_index.begins (by decide) finds_fieldIndex
      (by simp), fun _ _ => rfl⟩
  · refine ⟨_, Shape.reports_of_finds isObject_rest.begins (by decide) finds_fieldRest
      fun d x hx => ?_, fun h => by cases h⟩
    split at hx
    · exact d.eq_of_mem_only x hx
    · cases hx

/-- A source with one declaration on each line. -/
def source (ds : List Written) (ending : List Char) : List Char :=
  Text.join ['\n'] (ds.map (·.line.toList)) ++ ending

section Source

variable {ds : List Written} {ending : List Char}

/-- A shape declares what it reports. -/
theorem Shape.Reports.declarations_source {shape : Shape} {found : Written → List Declaration}
    (h : shape.Reports found) (hending : ∀ x ∈ ending, Text.isBlank x = true) :
    shape.declarations (source ds ending) =
      (ds.flatMap found).map fun d => (d, shape.route == .index) := by
  have hfinds := (h.finds_lines ds).append (h.finds_blank ending hending)
  rw [append_nil] at hfinds
  exact hfinds.declarations_eq

/-- All that shapes find is written there, and no index. -/
theorem exists_written {new : Declaration × Bool} (hending : ∀ x ∈ ending, Text.isBlank x = true)
    (hnew : new ∈ shapes.flatMap (·.declarations (source ds ending))) :
    ∃ d ∈ ds, new = (d.declaration, false) := by
  obtain ⟨shape, hshape, hnew⟩ := mem_flatMap.mp hnew
  obtain ⟨found, hreports, hindex⟩ := exists_reports hshape
  rw [hreports.declarations_source hending] at hnew
  obtain ⟨x, hx, rfl⟩ := mem_map.mp hnew
  obtain ⟨d, hd, hx⟩ := mem_flatMap.mp hx
  have hroute : (shape.route == RouteSource.index) = false := by
    rw [beq_eq_false_iff_ne]
    intro hroute
    rw [hindex hroute] at hx
    cases hx
  exact ⟨d, hd, by rw [hroute, hreports.eq_declaration d x hx]⟩

/-- All that is written in a source is found by a shape. -/
theorem mem_found {d : Written} (hending : ∀ x ∈ ending, Text.isBlank x = true) (hd : d ∈ ds) :
    (d.declaration, false) ∈ shapes.flatMap (·.declarations (source ds ending)) := by
  obtain ⟨hshape, hroute⟩ := d.wording.shape_mem
  refine mem_flatMap.mpr ⟨d.wording.shape, hshape, ?_⟩
  rw [d.wording.reports_shape.declarations_source hending]
  have honly : d.declaration ∈ d.only d.wording := by
    rw [Written.only, if_pos rfl]
    exact mem_cons_self
  refine mem_map.mpr ⟨d.declaration, mem_flatMap.mpr ⟨d, hd, honly⟩, ?_⟩
  rw [beq_eq_false_iff_ne.mpr hroute]

end Source

/-- All that is written is declared. -/
theorem perm_declarations_source {ds : List Written} {ending : List Char}
    (hroutes : (ds.map Written.route).Nodup) (hending : ∀ x ∈ ending, Text.isBlank x = true) :
    (declarations (source ds ending)).Perm (ds.map Written.declaration) := by
  have hfamily : ((ds.map Written.declaration).map (·.route)).Nodup := by
    rwa [map_map]
  have hkept : (declarations (source ds ending)).Nodup := by
    refine (pairwise_declarations _).imp ?_
    rintro a b hapart rfl
    exact (hapart rfl).2 rfl
  rw [perm_ext_iff_of_nodup hkept (List.Nodup.of_map _ hfamily)]
  have hwritten {x : Declaration} (hx : x ∈ declarations (source ds ending)) :
      x ∈ ds.map Written.declaration := by
    obtain ⟨isIndex, hfound⟩ := exists_found_of_mem hx
    obtain ⟨d, hd, heq⟩ := exists_written hending hfound
    exact mem_map.mpr ⟨d, hd, (congrArg Prod.fst heq).symm⟩
  refine fun x => ⟨hwritten, fun hx => ?_⟩
  obtain ⟨d, hd, rfl⟩ := mem_map.mp hx
  -- The route is declared, and no other written declaration has it.
  obtain ⟨y, hy, hroute⟩ := exists_mem_of_found (mem_found hending hd)
  rwa [inj_on_of_nodup_map hfamily (hwritten hy) hx hroute] at hy

end Route

/-- Every declared route is found exactly once, whatever mix of wordings a source uses: the pages
are as many as the declarations, with their routes and components. -/
theorem Project.declaredPages_of_written (file : Path) (ds : List Route.Written)
    (ending : List Char) (hroutes : (ds.map Route.Written.route).Nodup)
    (hending : ∀ x ∈ ending, Text.isBlank x = true) :
    (declaredPages file (Route.source ds ending)).length = ds.length ∧
      ∀ entry, entry ∈ (declaredPages file (Route.source ds ending)).map
          (fun page => (page.route, page.componentName)) ↔
        entry ∈ ds.map fun d => (d.route, some d.component.text) := by
  have hperm := Route.perm_declarations_source hroutes hending
  constructor
  · rw [declaredPages, List.length_map, hperm.length_eq, List.length_map]
  · intro entry
    have hentries := (hperm.map fun d => (d.route, some d.component)).mem_iff (a := entry)
    rw [declaredPages, List.map_map]
    rw [List.map_map] at hentries
    exact hentries

/-- A source with a declaration in each wording: a star, the root, and components named like an
element of routes and like a field. -/
def Route.sixWordings : List Route.Written :=
  [⟨⟨"*", by decide, by decide⟩, ⟨"Missing", by decide, by decide⟩, .fieldPathFirst⟩,
   ⟨⟨"/", by decide, by decide⟩, ⟨"Route", by decide, by decide⟩, .tagElementFirst⟩,
   ⟨⟨"users/:id", by decide, by decide⟩, ⟨"Component", by decide, by decide⟩, .fieldNamed⟩,
   ⟨⟨"/element:", by decide, by decide⟩, ⟨"Lazy", by decide, by decide⟩, .fieldImported⟩,
   ⟨⟨"path", by decide, by decide⟩, ⟨"Path_2", by decide, by decide⟩, .tagPathFirst⟩,
   ⟨⟨"a-b_c/*", by decide, by decide⟩, ⟨"Element", by decide, by decide⟩, .fieldElementFirst⟩]

/-- The six declarations are found, and no others. -/
theorem Project.declaredPages_sixWordings : (declaredPages (Path.ofString "/src/routes.tsx")
      (Route.source Route.sixWordings ['\n'])).length = 6 ∧
    ∀ entry, entry ∈ (declaredPages (Path.ofString "/src/routes.tsx")
        (Route.source Route.sixWordings ['\n'])).map
          (fun page => (page.route, page.componentName)) ↔
      entry ∈ [("/*", some "Missing"), ("/", some "Route"), ("/users/:id", some "Component"),
        ("/element:", some "Lazy"), ("/path", some "Path_2"), ("/a-b_c/*", some "Element")] :=
  declaredPages_of_written _ Route.sixWordings ['\n'] (by decide) (List.all_eq_true.mp rfl)

end SiteAtlas
