import SiteAtlas.Project.Pages

/-!
# Declared routes without repetition

Several shapes may match one declaration, and every page comes from one match. No route is lost, as
a match is passed over only if its route is there, and only the root is taken again, by index
routes.
-/

namespace SiteAtlas.Route

open List

variable {content : List Char}

attribute [ext] Declaration

/-- A match of a shape in a source. -/
structure Found where
  shape : Shape
  hit : Match

namespace Found

/-- What was declared. -/
def declaration (f : Found) : Declaration :=
  f.shape.declaration f.hit

/-- Whether it is an index route. -/
def isIndex (f : Found) : Bool :=
  f.shape.route == .index

/-- All matches in a source, in order. -/
def all (content : List Char) : List Found :=
  shapes.flatMap fun shape => (shape.pattern.findAll content).map (⟨shape, ·⟩)

/-- Note a match if its declaration is added. -/
def note (noted : List Found) (new : Found) : List Found :=
  if keepDeclaration (noted.map declaration) (new.declaration, new.isIndex) =
    noted.map declaration then noted
  else noted ++ [new]

/-- The matches of a source that the declarations come from. -/
def noted (content : List Char) : List Found :=
  (all content).foldl note []

end Found

/-- A declaration is passed over only if its route is there. -/
theorem keepDeclaration_cases (kept : List Declaration) (new : Declaration) (isIndex : Bool) :
    keepDeclaration kept (new, isIndex) = kept ∧ new.route ∈ kept.map (·.route) ∨
      keepDeclaration kept (new, isIndex) = kept ++ [new] ∧ new ∉ kept ∧
        (new.route ∈ kept.map (·.route) → isIndex = true) := by
  unfold keepDeclaration
  dsimp only
  split
  next hold =>
    refine .inl ⟨rfl, ?_⟩
    rw [Bool.or_eq_true, Bool.and_eq_true, any_eq_true, contains_iff_mem] at hold
    rcases hold with ⟨-, other, hother, hroute⟩ | hmem
    · exact mem_map.mpr ⟨other, hother, beq_iff_eq.mp hroute⟩
    · exact mem_map_of_mem hmem
  next hnew =>
    rw [Bool.or_eq_true, not_or, Bool.and_eq_true, not_and, Bool.not_eq_true', any_eq_true,
      contains_iff_mem] at hnew
    refine .inr ⟨rfl, hnew.2, fun hmem => ?_⟩
    obtain ⟨other, hother, hroute⟩ := mem_map.mp hmem
    rw [← Bool.not_eq_false]
    exact fun hindex => hnew.1 hindex ⟨other, hother, beq_iff_eq.mpr hroute⟩

namespace Found

/-- What has been noted of the matches that were looked at. -/
structure Covers (seen noted : List Found) : Prop where
  sublist : noted <+ seen
  /-- No route is lost. -/
  routes : ∀ f ∈ seen, f.declaration.route ∈ (noted.map declaration).map (·.route)
  /-- No declaration is repeated, and a route only as index. -/
  repeated : noted.Pairwise fun first second => first.declaration ≠ second.declaration ∧
    (first.declaration.route = second.declaration.route → second.isIndex = true)

variable {seen kept : List Found}

/-- One more match is noted where its declaration is kept. -/
theorem map_note (kept : List Found) (new : Found) : (note kept new).map declaration =
      keepDeclaration (kept.map declaration) (new.declaration, new.isIndex) := by
  unfold note
  split
  next hold => exact hold.symm
  next hnew =>
    rcases keepDeclaration_cases (kept.map declaration) new.declaration new.isIndex with
      ⟨hold, -⟩ | ⟨hkeep, -⟩
    · exact absurd hold hnew
    · rw [hkeep, map_append, map_singleton]

/-- Noting keeps all seen covered. -/
theorem Covers.note (h : Covers seen kept) (new : Found) :
    Covers (seen ++ [new]) (note kept new) := by
  rcases keepDeclaration_cases (kept.map declaration) new.declaration new.isIndex with
    ⟨hold, hroute⟩ | ⟨hkeep, hnew, hindex⟩
  · rw [Found.note, if_pos hold]
    refine ⟨h.sublist.trans (sublist_append_left ..), ?_, h.repeated⟩
    rw [forall_mem_append, forall_mem_singleton]
    exact ⟨h.routes, hroute⟩
  · rw [Found.note, if_neg (by simp [hkeep])]
    refine ⟨h.sublist.append_right _, ?_, ?_⟩
    · rw [forall_mem_append, forall_mem_singleton, map_append, map_append]
      exact ⟨fun f hf => mem_append_left _ (h.routes f hf), by simp⟩
    · refine pairwise_append.mpr ⟨h.repeated, pairwise_singleton _ _, fun first hfirst => ?_⟩
      have hmem : first.declaration ∈ kept.map declaration := mem_map_of_mem hfirst
      rw [forall_mem_singleton]
      exact ⟨fun heq => hnew (heq ▸ hmem), fun hroute => hindex (hroute ▸ mem_map_of_mem hmem)⟩

/-- Notes are taken match by match. -/
theorem Covers.foldl (h : Covers seen kept) (news : List Found) :
    Covers (seen ++ news) (news.foldl Found.note kept) := by
  induction news generalizing seen kept with
  | nil => rwa [append_nil]
  | cons new rest ih =>
    rw [append_cons]
    exact ih (h.note new)

/-- All found is covered by what is noted. -/
theorem covers_noted (content : List Char) : Covers (all content) (noted content) := by
  have hnone : Covers [] [] := ⟨nil_sublist _, forall_mem_nil _, .nil⟩
  have hall := hnone.foldl (all content)
  rwa [nil_append] at hall

/-- All found, as the shapes declare it. -/
theorem map_all (content : List Char) : (all content).map (fun f => (f.declaration, f.isIndex)) =
    shapes.flatMap (·.declarations content) := by
  simp only [all, map_flatMap, map_map]
  rfl

/-- The declarations of a source are those of the noted matches. -/
theorem map_noted (content : List Char) :
    (noted content).map declaration = declarations content := by
  have hrun (news kept : List Found) : (news.foldl Found.note kept).map declaration =
      (news.map fun f => (f.declaration, f.isIndex)).foldl keepDeclaration
        (kept.map declaration) := by
    induction news generalizing kept with
    | nil => rfl
    | cons new rest ih => rw [foldl_cons, ih, map_note, map_cons, foldl_cons]
  rw [noted, hrun, map_all, map_nil, declarations]

/-- What is found has a shape of the list. -/
theorem shape_mem_of_mem_all {f : Found} (h : f ∈ all content) : f.shape ∈ shapes := by
  obtain ⟨shape, hshape, hf⟩ := mem_flatMap.mp h
  obtain ⟨m, -, rfl⟩ := mem_map.mp hf
  exact hshape

/-- Index routes are the root. -/
theorem route_of_isIndex {f : Found} (h : f.isIndex = true) : f.declaration.route = "/" := by
  simp [declaration, Shape.declaration, beq_iff_eq.mp h]

end Found

/-- All that is declared is found by a shape. -/
theorem exists_found_of_mem {d : Declaration} (h : d ∈ declarations content) :
    ∃ isIndex, (d, isIndex) ∈ shapes.flatMap (·.declarations content) := by
  rw [← Found.map_noted] at h
  obtain ⟨f, hf, rfl⟩ := mem_map.mp h
  rw [← Found.map_all]
  exact ⟨f.isIndex, mem_map_of_mem ((Found.covers_noted content).sublist.mem hf)⟩

/-- The route of all that a shape finds is declared. -/
theorem exists_mem_of_found {new : Declaration × Bool}
    (h : new ∈ shapes.flatMap (·.declarations content)) :
    ∃ d ∈ declarations content, d.route = new.1.route := by
  rw [← Found.map_all] at h
  obtain ⟨f, hf, rfl⟩ := mem_map.mp h
  have hroute := (Found.covers_noted content).routes f hf
  rw [Found.map_noted] at hroute
  exact mem_map.mp hroute

/-- A route begins with a slash. -/
theorem Shape.route_declaration (shape : Shape) (m : Match) :
    ∃ rest, (shape.declaration m).route.toList = '/' :: rest := by
  unfold Shape.declaration
  simp only [String.toList_ofList]
  cases shape.route with
  | captured index =>
    unfold rooted
    dsimp only
    split
    next hslash =>
      obtain ⟨rest, hrest⟩ := List.isPrefixOf_iff_prefix.mp hslash
      exact ⟨rest, hrest.symm⟩
    next => exact ⟨_, rfl⟩
  | index => exact ⟨[], rfl⟩
  | rest => exact ⟨['*'], rfl⟩

/-- One shape is for index routes. -/
theorem eq_fieldIndex_of_route {shape : Shape} (h : shape ∈ shapes)
    (hindex : shape.route = .index) : shape = fieldIndex := by
  simp only [shapes, mem_cons, not_mem_nil, or_false] at h
  rcases h with rfl | rfl | rfl | rfl | rfl | rfl | rfl | rfl | rfl | rfl
  all_goals first | exact absurd hindex (by decide) | rfl

/-- The pages that a source declares have routes that begin with a slash, and no two have the same
route and component. Each comes from a match of a shape, in order; a repeated route is the root,
and the later page an index route. The route of every match is there. -/
theorem declared_routes_deduplicated (file : Path) (content : List Char) :
    (∀ page ∈ Project.declaredPages file content, ∃ rest, page.route.toList = '/' :: rest) ∧
    ((Project.declaredPages file content).map fun page => (page.route, page.componentName)).Nodup ∧
    (Found.noted content <+ Found.all content ∧
      (Found.noted content).map (fun f => Project.declaredPage file f.declaration) =
        Project.declaredPages file content ∧ (Found.noted content).Pairwise fun first second =>
        first.declaration.route = second.declaration.route →
          first.declaration.route = "/" ∧ second.shape = fieldIndex) ∧
    ∀ shape ∈ shapes, ∀ m ∈ shape.pattern.findAll content,
      ∃ page ∈ Project.declaredPages file content, page.route = (shape.declaration m).route := by
  have hcovers := Found.covers_noted content
  have hpages : (Found.noted content).map (fun f => Project.declaredPage file f.declaration) =
      Project.declaredPages file content := by
    rw [Project.declaredPages, ← Found.map_noted, map_map]
    rfl
  refine ⟨?_, ?_, ⟨hcovers.sublist, hpages, ?_⟩, ?_⟩
  · intro page hpage
    obtain ⟨f, -, rfl⟩ := mem_map.mp (hpages ▸ hpage)
    exact f.shape.route_declaration f.hit
  · rw [← hpages, map_map]
    refine hcovers.repeated.map _ fun first second h heq => h.1 ?_
    obtain ⟨hroute, hcomponent⟩ := Prod.mk.inj heq
    exact Declaration.ext hroute (Option.some.inj hcomponent)
  · refine hcovers.repeated.imp_of_mem fun {first second} _ hsecond h hroute => ?_
    have hindex := h.2 hroute
    refine ⟨hroute.trans (Found.route_of_isIndex hindex),
      eq_fieldIndex_of_route ?_ (beq_iff_eq.mp hindex)⟩
    exact Found.shape_mem_of_mem_all (hcovers.sublist.mem hsecond)
  · intro shape hshape m hm
    obtain ⟨d, hd, heq⟩ := exists_mem_of_found (mem_flatMap.mpr ⟨shape, hshape, mem_map_of_mem hm⟩)
    exact ⟨Project.declaredPage file d, mem_map_of_mem hd, heq⟩

end SiteAtlas.Route
