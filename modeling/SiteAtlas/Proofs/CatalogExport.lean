import SiteAtlas.Export.Json
import SiteAtlas.Proofs.JsonText

/-!
# Reading exported catalogs back

The JSON text of a catalog is read as its record. Layouts nested beyond the room of the stack and a
line number with too many digits keep a catalog from being exported. The text of any other is in
ASCII and is read back where there is room, unless a first half of a character stands right before a
second one.
-/

namespace SiteAtlas

open List

open SiteAtlas.Data (Value)
open SiteAtlas.Data.Json
open SiteAtlas.Number (digitLimit)
open SiteAtlas.Source (DataDependency Import Property)

variable {α : Type}

/-- A value whose text says all, read back with some room. -/
structure Fits (room : Nat) (v : Value) : Prop where
  faithful : Faithful v
  depth_le : depth v ≤ room

namespace Fits

variable {room : Nat}

/-- More room does no harm. -/
theorem mono {v : Value} (h : Fits room v) {more : Nat} (hle : room ≤ more) : Fits more v :=
  ⟨h.faithful, h.depth_le.trans hle⟩

/-- A list of items that fit, with room for one more container. -/
theorem list {items : List Value} (h : ∀ v ∈ items, Fits room v) :
    Fits (room + 1) (.list items) := by
  have hitems : FaithfulItems items ∧ depthOfItems items ≤ room := by
    induction items with
    | nil => exact ⟨trivial, Nat.zero_le _⟩
    | cons v items ih =>
      obtain ⟨hfaithful, hdepth⟩ := ih fun w hw => h w (.tail _ hw)
      have hv := h v (.head _)
      exact ⟨⟨hv.faithful, hfaithful⟩, Nat.max_le.mpr ⟨hv.depth_le, hdepth⟩⟩
  exact ⟨hitems.1, Nat.succ_le_succ hitems.2⟩

/-- A table of values that fit, with different keys and room for one more. -/
theorem table {entries : List (String × Value)} (hkeys : (entries.map (·.1)).Nodup)
    (h : ∀ e ∈ entries, Fits room e.2) : Fits (room + 1) (.table entries) := by
  have hentries : FaithfulEntries entries ∧ depthOfEntries entries ≤ room := by
    clear hkeys
    induction entries with
    | nil => exact ⟨trivial, Nat.zero_le _⟩
    | cons e entries ih =>
      obtain ⟨hfaithful, hdepth⟩ := ih fun f hf => h f (.tail _ hf)
      have he := h e (.head _)
      exact ⟨⟨he.faithful, hfaithful⟩, Nat.max_le.mpr ⟨he.depth_le, hdepth⟩⟩
  exact ⟨⟨hkeys, hentries.1⟩, Nat.succ_le_succ hentries.2⟩

/-- A list of things that fit as data. -/
theorem map {f : α → Value} {items : List α} (h : ∀ a ∈ items, Fits room (f a)) :
    Fits (room + 1) (.list (items.map f)) := by
  apply list
  intro v hv
  obtain ⟨a, ha, rfl⟩ := mem_map.mp hv
  exact h a ha

end Fits

/-- A value that fits and that can always be written. -/
structure Sound (room : Nat) (v : Value) : Prop extends Fits room v where
  error?_eq_none : error? v = none

namespace Sound

variable {room : Nat}

/-- Null is sound. -/
@[simp] theorem null : Sound room .null := ⟨⟨trivial, Nat.zero_le _⟩, rfl⟩

/-- Truth values are sound. -/
@[simp] theorem bool (b : Bool) : Sound room (.bool b) := ⟨⟨trivial, Nat.zero_le _⟩, rfl⟩

/-- Texts are sound. -/
@[simp] theorem text (s : String) : Sound room (.text s) := ⟨⟨trivial, Nat.zero_le _⟩, rfl⟩

/-- Texts that may be missing are sound. -/
@[simp] theorem optionalText (s : Option String) : Sound room (optionalTextValue s) := by
  cases s with
  | none => exact null
  | some s => exact text s

/-- A list of sound items, with room for one more container. -/
theorem list {items : List Value} (h : ∀ v ∈ items, Sound room v) :
    Sound (room + 1) (.list items) := by
  refine ⟨.list fun v hv => (h v hv).toFits, ?_⟩
  change errorInItems? items = none
  induction items with
  | nil => rfl
  | cons v items ih =>
    rw [errorInItems?, (h v (.head _)).error?_eq_none, ih fun w hw => h w (.tail _ hw)]
    rfl

/-- A table of sound values, with different keys and room for one more. -/
theorem table {entries : List (String × Value)} (hkeys : (entries.map (·.1)).Nodup)
    (h : ∀ e ∈ entries, Sound room e.2) : Sound (room + 1) (.table entries) := by
  refine ⟨.table hkeys fun e he => (h e he).toFits, ?_⟩
  change errorInEntries? entries = none
  clear hkeys
  induction entries with
  | nil => rfl
  | cons e entries ih =>
    rw [errorInEntries?, (h e (.head _)).error?_eq_none, ih fun f hf => h f (.tail _ hf)]
    rfl

/-- A list of things that are sound as data. -/
theorem map {f : α → Value} {items : List α} (h : ∀ a ∈ items, Sound room (f a)) :
    Sound (room + 1) (.list (items.map f)) := by
  apply list
  intro v hv
  obtain ⟨a, ha, rfl⟩ := mem_map.mp hv
  exact h a ha

/-- Lists of texts are sound. -/
@[simp] theorem texts (items : List String) : Sound (room + 1) (textsValue items) :=
  map fun s _ => text s

/-- Records of properties are sound. -/
@[simp] theorem property (p : Property) : Sound (room + 1) p.toValue :=
  table (by simp) (by simp)

/-- Action references are sound. -/
@[simp] theorem serverActionRef (r : ServerActionRef) : Sound (room + 1) r.toValue :=
  table (by simp) (by simp)

/-- Closures are sound. -/
@[simp] theorem closure (c : DependencyClosure) : Sound (room + 2) c.toValue :=
  table (by simp) (by simp)

/-- Records of hooks are sound. -/
@[simp] theorem hook (h : Hook) : Sound (room + 2) h.toValue :=
  table (by simp) (by simp)

/-- Records of contexts are sound. -/
@[simp] theorem context (c : Context) : Sound (room + 2) c.toValue :=
  table (by simp) (by simp)

/-- Records of utilities are sound. -/
@[simp] theorem utility (u : Utility) : Sound (room + 2) u.toValue :=
  table (by simp) (by simp)

/-- Records of stores are sound. -/
@[simp] theorem store (s : Store) : Sound (room + 2) s.toValue :=
  table (by simp) (by simp)

/-- Records of action files are sound. -/
@[simp] theorem serverActionFile (a : ServerActionFile) : Sound (room + 2) a.toValue :=
  table (by simp) (by simp)

/-- Records of middleware are sound. -/
@[simp] theorem middleware (m : Middleware) : Sound (room + 2) m.toValue :=
  table (by simp) (by simp)

/-- Records of handlers are sound. -/
@[simp] theorem apiRoute (r : ApiRoute) : Sound (room + 2) r.toValue :=
  table (by simp) (by simp)

/-- Records of edges are sound. -/
@[simp] theorem edge (e : Edge) : Sound (room + 1) e.toValue :=
  table (by simp) (by simp)

/-- A part that may be absent. -/
theorem optional {f : α → Value} (h : ∀ a, Sound room (f a)) (part : Option α) :
    Sound room (optionalValue f part) := by
  cases part with
  | none => exact null
  | some a => exact h a

/-- A table that is made of sound entries under different keys. -/
theorem tableMap {f : α → String × Value} {items : List α}
    (hkeys : (items.map fun a => (f a).1).Nodup) (h : ∀ a ∈ items, Sound room (f a).2) :
    Sound (room + 1) (.table (items.map f)) := by
  apply table
  · rw [map_map]
    exact hkeys
  · intro e he
    obtain ⟨a, ha, rfl⟩ := mem_map.mp he
    exact h a ha

/-- An import, where each exported name has one local name. -/
theorem importRecord {i : Import} (h : (i.aliases.map (·.1)).Nodup) :
    Sound (room + 2) i.toValue := by
  apply table
  · simp
  · simp only [forall_mem_cons, not_mem_nil, false_implies, implies_true, bool, text,
      texts, optionalText, true_and, and_true]
    exact tableMap h fun a _ => text a.2

end Sound

/-- The error of a value that may hold a long number. -/
def errorIf (long : Bool) : Option WriteError :=
  if long then some .tooManyDigits else none

/-- Of two parts, either one can have too long a number. -/
theorem errorIf_or (a b : Bool) : (errorIf a).or (errorIf b) = errorIf (a || b) := by
  cases a <;> rfl

/-- A list is refused if one of its items is. -/
theorem error?_list_map {f : α → Value} {long : α → Bool} {items : List α}
    (h : ∀ a ∈ items, error? (f a) = errorIf (long a)) :
    error? (.list (items.map f)) = errorIf (items.any long) := by
  change errorInItems? (items.map f) = _
  induction items with
  | nil => rfl
  | cons a items ih =>
    rw [map_cons, errorInItems?, h a (.head _), ih fun b hb => h b (.tail _ hb), errorIf_or,
      any_cons]

/-- An entry that can be written does not get a table refused. -/
theorem errorInEntries?_cons_of_sound {v : Value} (h : Sound 4 v) (key : String)
    (rest : List (String × Value)) : errorInEntries? ((key, v) :: rest) = errorInEntries? rest := by
  rw [errorInEntries?, h.error?_eq_none]
  rfl

/-- A table is refused with its entries. -/
theorem error?_table (entries : List (String × Value)) :
    error? (.table entries) = errorInEntries? entries := rfl

/-- A line number with more digits than are written. -/
def isLong (d : DataDependency) : Bool :=
  digitLimit < (Nat.toDigits 10 d.line).length

/-- A data access is refused for its line only. -/
theorem error?_dataDependency (d : DataDependency) : error? d.toValue = errorIf (isLong d) := by
  have hline : error? (.int d.line) = errorIf (isLong d) := by
    simp only [error?, errorIf, isLong, Int.natAbs_natCast, decide_eq_true_eq, ← Nat.not_le]
    split <;> simp_all
  rw [DataDependency.toValue, error?_table, errorInEntries?_cons_of_sound (.text _),
    errorInEntries?_cons_of_sound (.text _), errorInEntries?, hline]
  cases isLong d <;> rfl

/-- Data accesses fit. -/
theorem fits_dataDependency (room : Nat) (d : DataDependency) : Fits (room + 1) d.toValue := by
  have hline : Fits room (.int d.line) := ⟨trivial, Nat.zero_le _⟩
  exact .table (by simp) (by simp [hline, Sound.toFits])

/-- The last entry alone decides if all others can be written. -/
theorem errorInEntries?_singleton (key : String) (v : Value) :
    errorInEntries? [(key, v)] = error? v := by
  cases h : error? v <;> simp [errorInEntries?, h]

/-- A page is refused for its lines only. -/
theorem error?_page (p : Page) : error? p.toValue = errorIf (p.dataDependencies.any isLong) := by
  rw [Page.toValue, error?_table]
  simp only [errorInEntries?_cons_of_sound, Sound.text, Sound.bool, Sound.optionalText, Sound.texts]
  rw [errorInEntries?_singleton, error?_list_map fun d _ => error?_dataDependency d]

/-- Records of pages fit. -/
theorem fits_page (room : Nat) (p : Page) : Fits (room + 3) p.toValue := by
  have hlines : Fits (room + 2) (.list (p.dataDependencies.map (·.toValue))) :=
    .map fun d _ => fits_dataDependency room d
  exact .table (by simp) (by simp [hlines, Sound.toFits])

/-- The exported names of a component's imports differ. -/
def Component.NamesApart (c : Component) : Prop :=
  ∀ i ∈ c.importRecords, (i.aliases.map (·.1)).Nodup

/-- All parts of a component but its lines are sound. -/
theorem sound_componentParts (room : Nat) {c : Component} (h : c.NamesApart) :
    Sound (room + 3) (optionalValue DependencyClosure.toValue c.allDependencies) ∧
      Sound (room + 3) (.list (c.importRecords.map (·.toValue))) ∧
      Sound (room + 3) (.list (c.props.map (·.toValue))) ∧
      Sound (room + 3) (.list (c.serverActions.map (·.toValue))) :=
  ⟨.optional (fun _ => .closure _) _, .map fun i hi => .importRecord (h i hi),
    .map fun p _ => .property p, .map fun r _ => .serverActionRef r⟩

/-- A component is refused for its lines only. -/
theorem error?_component {c : Component} (h : c.NamesApart) :
    error? c.toValue = errorIf (c.dataDependencies.any isLong) := by
  obtain ⟨hclosure, himports, hprops, hactions⟩ := sound_componentParts 1 h
  rw [Component.toValue, error?_table]
  simp only [errorInEntries?_cons_of_sound, Sound.text, Sound.bool, Sound.texts, hprops]
  rw [errorInEntries?, error?_list_map fun d _ => error?_dataDependency d]
  simp only [errorInEntries?_cons_of_sound, Sound.texts, hactions, hclosure, himports]
  cases c.dataDependencies.any isLong <;> rfl

/-- Records of components fit, names apart. -/
theorem fits_component (room : Nat) {c : Component} (h : c.NamesApart) :
    Fits (room + 4) c.toValue := by
  have hlines : Fits (room + 3) (.list (c.dataDependencies.map (·.toValue))) :=
    .map fun d _ => fits_dataDependency (room + 1) d
  obtain ⟨hclosure, himports, hprops, hactions⟩ := sound_componentParts room h
  apply Fits.table
  · simp
  · simp [hlines, Sound.toFits, hclosure, himports, hprops, hactions]

mutual

/-- A layout tree says all and takes two containers a level. -/
theorem sound_layout : ∀ n : LayoutNode, Sound (2 * n.levels) n.toValue
  | .node route filePath children => by
    have hchildren := sound_layoutValues children
    exact .table (by simp) (by simp [hchildren])

/-- Layout trees say all and take two containers a level. -/
theorem sound_layoutValues : ∀ nodes : List LayoutNode,
    Sound (2 * levelsAmong nodes + 1) (.list (layoutValues nodes))
  | [] => .list (forall_mem_nil _)
  | n :: rest => by
    have hn := sound_layout n
    have hrest := sound_layoutValues rest
    refine ⟨⟨⟨hn.faithful, hrest.faithful⟩, ?_⟩, ?_⟩
    · have hdepth : depthOfItems (layoutValues rest) + 1 ≤ 2 * levelsAmong rest + 1 :=
        hrest.depth_le
      have hmax : max (depth n.toValue) (depthOfItems (layoutValues rest)) + 1 ≤
          2 * max n.levels (levelsAmong rest) + 1 := by
        have := hn.depth_le
        omega
      exact hmax
    · change (error? n.toValue).or (errorInItems? (layoutValues rest)) = none
      rw [hn.error?_eq_none]
      exact hrest.error?_eq_none

end

namespace Catalog

/-- The data accesses that a catalog lists. -/
def dataDependencies (c : Catalog) : List DataDependency :=
  c.pages.flatMap (·.dataDependencies) ++ c.components.flatMap (·.dataDependencies)

/-- The exported names of a catalog's imports differ. -/
def NamesApart (c : Catalog) : Prop :=
  ∀ component ∈ c.components, component.NamesApart

/-- The nesting of a catalog's record: six, and two a level of layouts. -/
def nesting (c : Catalog) : Nat :=
  max 6 (2 * c.layoutLevels + 1)

/-- A layout tree that may be absent. -/
theorem sound_layoutHierarchy (c : Catalog) :
    Sound (2 * c.layoutLevels) (optionalValue LayoutNode.toValue c.layoutHierarchy) := by
  unfold layoutLevels
  cases c.layoutHierarchy with
  | none => exact .null
  | some n => exact sound_layout n

/-- The parts of a catalog that can always be written. -/
theorem sound_parts (room : Nat) (c : Catalog) :
    (Sound (room + 3) (.list (c.hooks.map (·.toValue))) ∧
      Sound (room + 3) (.list (c.contexts.map (·.toValue))) ∧
      Sound (room + 3) (.list (c.utilities.map (·.toValue))) ∧
      Sound (room + 3) (.list (c.stores.map (·.toValue)))) ∧
    Sound (room + 3) (.list (c.serverActionFiles.map (·.toValue))) ∧
      Sound (room + 3) (optionalValue Middleware.toValue c.middleware) ∧
      Sound (room + 3) (.list (c.apiRoutes.map (·.toValue))) ∧
      Sound (room + 3) (.list (c.edges.map (·.toValue))) :=
  ⟨⟨.map fun a _ => .hook a, .map fun a _ => .context a, .map fun a _ => .utility a,
    .map fun a _ => .store a⟩, .map fun a _ => .serverActionFile a,
    .optional (fun _ => .middleware _) _, .map fun a _ => .apiRoute a, .map fun a _ => .edge a⟩

/-- A catalog is refused for a line number only. -/
theorem error?_toValue {c : Catalog} (h : c.NamesApart) :
    error? c.toValue = errorIf (c.dataDependencies.any isLong) := by
  obtain ⟨⟨hhooks, hcontexts, hutilities, hstores⟩, hactions, hmiddleware, hroutes, hedges⟩ :=
    c.sound_parts 1
  have hpages : error? (.list (c.pages.map (·.toValue))) =
      errorIf (c.pages.any fun p => p.dataDependencies.any isLong) :=
    error?_list_map fun p _ => error?_page p
  have hcomponents : error? (.list (c.components.map (·.toValue))) =
      errorIf (c.components.any fun d => d.dataDependencies.any isLong) :=
    error?_list_map fun d hd => error?_component (h d hd)
  have hlayouts := c.sound_layoutHierarchy.error?_eq_none
  have hlast : errorInEntries? [("edges", .list (c.edges.map (·.toValue))),
      ("scanned_at", .text c.scannedAt)] = errorIf false := by
    simp only [errorInEntries?_cons_of_sound, hedges, Sound.text]
    rfl
  rw [toValue, error?_table]
  simp only [errorInEntries?_cons_of_sound, Sound.text]
  rw [errorInEntries?, hpages, errorInEntries?, hcomponents]
  simp only [errorInEntries?_cons_of_sound, hhooks, hcontexts, hutilities, hstores, hactions,
    hmiddleware, hroutes]
  rw [errorInEntries?, hlayouts, hlast, Option.none_or, errorIf_or, errorIf_or, Bool.or_false,
    dataDependencies, any_append, any_flatMap, any_flatMap]

/-- The record of a catalog says all if names of imports differ. -/
theorem fits_toValue {c : Catalog} (h : c.NamesApart) : Fits c.nesting c.toValue := by
  obtain ⟨room, hroom⟩ : ∃ room, max 5 (2 * c.layoutLevels) = room + 5 :=
    ⟨max 5 (2 * c.layoutLevels) - 5, by omega⟩
  obtain ⟨⟨hhooks, hcontexts, hutilities, hstores⟩, hactions, hmiddleware, hroutes, hedges⟩ :=
    c.sound_parts (room + 2)
  have hpages : Fits (room + 5) (.list (c.pages.map (·.toValue))) :=
    .map fun p _ => fits_page (room + 1) p
  have hcomponents : Fits (room + 5) (.list (c.components.map (·.toValue))) :=
    .map fun d hd => fits_component room (h d hd)
  have hlayouts : Fits (room + 5) (optionalValue LayoutNode.toValue c.layoutHierarchy) :=
    c.sound_layoutHierarchy.toFits.mono (by omega)
  have hnesting : c.nesting = room + 5 + 1 := by
    unfold nesting
    omega
  rw [hnesting]
  apply Fits.table
  · simp
  · simp [Sound.toFits, hpages, hcomponents, hlayouts, hhooks, hcontexts, hutilities, hstores,
      hactions, hmiddleware, hroutes, hedges]

/-- A catalog is exported unless its layouts are nested too deeply or a line number has too many
digits. The text is in ASCII, and is read as the record of the catalog where there is room. -/
theorem exported_json_reads_back [Host] (c : Catalog) (h : c.NamesApart)
    (hpairs : pairFree c.toValue = true) : c.exportJson =
      (if Host.layoutRoom < c.layoutLevels then .error .stack
      else if c.dataDependencies.any isLong then .error (.value .tooManyDigits)
      else .ok (textOf c.toValue)) ∧ ∀ written, c.exportJson = .ok written → IsAscii written ∧
      ∀ room, c.nesting ≤ room → read room written = .ok c.toValue := by
  have hfits := fits_toValue h
  have hexport : c.exportJson = if Host.layoutRoom < c.layoutLevels then .error .stack
      else if c.dataDependencies.any isLong then .error (.value .tooManyDigits)
      else .ok (textOf c.toValue) := by
    unfold exportJson record
    split
    · rfl
    · simp only [bind, Except.bind, write, error?_toValue h]
      cases c.dataDependencies.any isLong <;> rfl
  refine ⟨hexport, fun written hwritten => ?_⟩
  rw [hexport] at hwritten
  split at hwritten
  · cases hwritten
  split at hwritten
  · cases hwritten
  · next hshort =>
    have herror : error? c.toValue = none := by
      rw [error?_toValue h, Bool.eq_false_iff.mpr hshort]
      rfl
    rw [← Except.ok.inj hwritten]
    exact ⟨isAscii_writeAt 0 _ hfits.faithful, fun room hroom =>
      read_text hfits.faithful hpairs herror (hfits.depth_le.trans hroom)⟩

/-- A catalog with a renamed import, escapes and levels of layouts. -/
def noteCatalog : Catalog :=
  { projectPath := "/p", projectName := "q\"\\\n\x01é😀", framework := .nextjs, router := .nextjsApp,
    pages := [{ route := "/", filePath := "/p/app/page.tsx", fileName := "page.tsx",
                dataDependencies := [⟨.fetch, "/api", 12⟩] }],
    components := [{ name := "Note", filePath := "/p/note.tsx", fileName := "note.tsx",
                     importRecords := [{ names := ["a", "b"], source := "./x", isLocal := true,
                                         aliases := [("a", "c"), ("b", "d")] }] }],
    layoutHierarchy := some (.node "/" "/p/app/layout.tsx" [.node "/a" "/p/app/a/layout.tsx" []]) }

/-- Layouts nested in each other, one level more than a number. -/
def layoutTower : Nat → LayoutNode
  | 0 => .node "/" "layout.tsx" []
  | n + 1 => .node "/" "layout.tsx" [layoutTower n]

/-- A tower has one level more. -/
theorem levels_layoutTower (n : Nat) : (layoutTower n).levels = n + 1 := by
  induction n with
  | zero => rfl
  | succ n ih => rw [layoutTower, LayoutNode.levels, levelsAmong, levelsAmong, ih, Nat.max_zero]

/-- A catalog with one level of layouts more than a number. -/
def towerCatalog (n : Nat) : Catalog :=
  { projectPath := "/p", projectName := "p", framework := .nextjs, router := .nextjsApp,
    layoutHierarchy := some (layoutTower n) }

/-- A catalog with a data access in a line. -/
def lineCatalog (line : Nat) : Catalog :=
  { projectPath := "/p", projectName := "p", framework := .nextjs, router := .nextjsApp,
    pages := [{ route := "/", filePath := "/p/app/page.tsx", fileName := "page.tsx",
                dataDependencies := [⟨.fetch, "/api", line⟩] }] }

/-- A catalog that has nothing but a name. -/
def namedCatalog (name : String) : Catalog :=
  { projectPath := "/p", projectName := name, framework := .unknown, router := .unknown }

/-- A line number is long if it needs too many digits. -/
theorem isLong_of_le {d : DataDependency} (h : 10 ^ digitLimit ≤ d.line) : isLong d = true := by
  rw [isLong, decide_eq_true_eq, ← Nat.not_le, Nat.length_toDigits_le_iff (by decide) (by decide)]
  exact Nat.not_lt.mpr h

section

attribute [local instance] Host.usual

/-- A small catalog reads back. -/
theorem exported_json_reads_back_noteCatalog :
    noteCatalog.NamesApart ∧ pairFree noteCatalog.toValue = true ∧
      ∃ written, noteCatalog.exportJson = .ok written ∧
        read 6 written = .ok noteCatalog.toValue := by
  have hnames : noteCatalog.NamesApart := by
    simp [NamesApart, Component.NamesApart, noteCatalog]
  have hpairs : pairFree noteCatalog.toValue = true := by decide +kernel
  have hlines : noteCatalog.dataDependencies.any isLong = false := by decide
  have hlevels : ¬ Host.layoutRoom < noteCatalog.layoutLevels := by decide
  obtain ⟨hexport, hread⟩ := exported_json_reads_back noteCatalog hnames hpairs
  rw [hlines, if_neg hlevels, if_neg Bool.false_ne_true] at hexport
  exact ⟨hnames, hpairs, _, hexport, (hread _ hexport).2 6 (by decide)⟩

/-- The name of a project as the two halves of a character. -/
def halves : String :=
  String.ofList [Text.charOf 0xd83d, Text.charOf 0xde00]

/-- Layouts nested too deeply and a line number with too many digits keep a catalog from being
exported, and a character is exported as its two halves are. -/
theorem exported_json_refused :
    (∀ host : Host, @exportJson host (towerCatalog host.layoutRoom) = .error .stack) ∧
    (∀ host : Host,
      @exportJson host (lineCatalog (10 ^ digitLimit)) = .error (.value .tooManyDigits)) ∧
    ∃ written, (namedCatalog halves).exportJson = .ok written ∧
      (namedCatalog "😀").exportJson = .ok written ∧ halves ≠ "😀" := by
  refine ⟨fun host => ?_, fun host => ?_, ?_⟩
  · have hdeep : host.layoutRoom < (towerCatalog host.layoutRoom).layoutLevels := by
      show host.layoutRoom < (layoutTower host.layoutRoom).levels
      rw [levels_layoutTower]
      exact Nat.lt_succ_self _
    rw [exportJson, record, if_pos hdeep]
    rfl
  · have hlong : error? (lineCatalog (10 ^ digitLimit)).toValue = some .tooManyDigits := by
      have hlines : (lineCatalog (10 ^ digitLimit)).dataDependencies.any isLong = true := by
        simp only [lineCatalog, dataDependencies, List.flatMap_cons, List.flatMap_nil,
          List.append_nil, List.any_cons, List.any_nil, Bool.or_false]
        exact isLong_of_le (Nat.le_refl _)
      have hnames : (lineCatalog (10 ^ digitLimit)).NamesApart := forall_mem_nil _
      rw [error?_toValue hnames, hlines]
      rfl
    have hflat : ¬ host.layoutRoom < (lineCatalog (10 ^ digitLimit)).layoutLevels :=
      Nat.not_lt_zero _
    rw [exportJson, record, if_neg hflat]
    simp only [bind, Except.bind, write, hlong]
    rfl
  · have htext : textOf (namedCatalog halves).toValue = textOf (namedCatalog "😀").toValue := by
      decide +kernel
    refine ⟨textOf (namedCatalog halves).toValue, rfl, ?_, by decide⟩
    rw [htext]
    rfl

end

end Catalog

end SiteAtlas
