import SiteAtlas.Proofs.Collecting
import SiteAtlas.Proofs.Lookup

/-!
# What references mean

A page renders the components that its names are looked up to. A component imports, for each name,
the entity of the first kind whose index answers with something else than itself, and calls a server
action if an import of values matches its file and names a function. Linking lists exactly these.
-/

namespace SiteAtlas

open List

variable (c : Catalog) (x : Component) (name : String) (kind : TargetKind)

/-- A page renders a component: one of its names is looked up to it. -/
def Renders (c : Catalog) (p : Page) (id : String) : Prop :=
  ∃ name, (p.componentName = some name ∧ name ≠ "" ∨ name ∈ p.components) ∧
    (indexOf c .component).lookup name = some id

/-- A name in a component refers to an entity: its kind is the first whose index has an answer other
than the component. -/
def RefersTo (c : Catalog) (x : Component) (name : String) (kind : TargetKind) (id : String) :
    Prop :=
  ∃ before after, TargetKind.all = before ++ kind :: after ∧
    ((indexOf c kind).lookup name = some id ∧ id ≠ x.id) ∧
    ∀ earlier ∈ before, ∀ other, (indexOf c earlier).lookup name = some other → other = x.id

/-- A component imports the entity of a kind with an identifier. -/
def Imports (c : Catalog) (x : Component) (kind : TargetKind) (id : String) : Prop :=
  ∃ name ∈ x.imports, RefersTo c x name kind id

/-- A component calls a function of an action file: an import of values matches the file and lists
the function in braces without `type`. -/
def CallsFunction (table : AliasTable) (x : Component) (a : ServerActionFile) (f : String) : Prop :=
  ∃ i ∈ x.importRecords, i.isTypeOnly = false ∧ i.isSideEffect = false ∧
    matchesAction table i.source.toList a (.ofString x.filePath) = true ∧
    f ∈ i.braceNames ∧ f ∉ i.typeNames ∧ f ∈ a.exportedFunctions

/-- A page's names: of its component, if any, and of those it has. -/
theorem mem_referenceNames (p : Page) (name : String) :
    name ∈ p.referenceNames ↔ p.componentName = some name ∧ name ≠ "" ∨ name ∈ p.components := by
  simp [Page.referenceNames, Option.filter_eq_some_iff]

/-- Page references are renderings. -/
theorem mem_pageReferences (r : PageReference) :
    r ∈ pageReferences (Indexes.ofCatalog c) c ↔ r.page ∈ c.pages ∧ Renders c r.page r.target := by
  obtain ⟨page, target⟩ := r
  simp only [pageReferences, mem_flatMap, mem_filterMap, mem_referenceNames,
    Option.map_eq_some_iff, PageReference.mk.injEq]
  constructor
  · rintro ⟨p, hp, name, hname, id, hlookup, rfl, rfl⟩
    exact ⟨hp, name, hname, hlookup⟩
  · rintro ⟨hp, name, hname, hlookup⟩
    exact ⟨page, hp, name, hname, target, hlookup, rfl, rfl⟩

/-- Only a lookup among components finds the component itself. -/
theorem targetIn_eq : targetIn (Indexes.ofCatalog c) x name kind =
      (((indexOf c kind).lookup name).filter (· != x.id)).map (kind, ·) := by
  rw [targetIn, Indexes.ofCatalog, PerKind.get_ofFn]
  congr 1
  cases hlookup : (indexOf c kind).lookup name with
  | none => rfl
  | some id =>
    by_cases hkind : kind = .component
    · simp [Option.filter_some, hkind, bne]
    · have hne : id ≠ x.id := by
        rintro rfl
        have hlabel := idLabel_of_lookup c kind name _ hlookup
        rw [show x.id = (Entity.component x).id from rfl, Entity.idLabel_id, String.toList_inj]
          at hlabel
        cases kind <;> simp_all [Entity.label, TargetKind.label]
      simp [Option.filter_some, hkind, hne]

/-- A kind gives a target if its index answers with another entity. -/
theorem targetIn_eq_some_iff (target : TargetKind × String) :
    targetIn (Indexes.ofCatalog c) x name kind = some target ↔
      target.1 = kind ∧ (indexOf c kind).lookup name = some target.2 ∧ target.2 ≠ x.id := by
  obtain ⟨found, id⟩ := target
  rw [targetIn_eq, Option.map_eq_some_iff]
  constructor
  · rintro ⟨answer, hanswer, heq⟩
    obtain ⟨rfl, rfl⟩ := Prod.mk.inj heq
    obtain ⟨hlookup, hne⟩ := Option.filter_eq_some_iff.mp hanswer
    exact ⟨rfl, hlookup, by simpa using hne⟩
  · rintro ⟨rfl, hlookup, hne⟩
    exact ⟨id, Option.filter_eq_some_iff.mpr ⟨hlookup, by simpa using hne⟩, rfl⟩

/-- A kind gives no target if its index answers at most with itself. -/
theorem targetIn_eq_none_iff : targetIn (Indexes.ofCatalog c) x name kind = none ↔
      ∀ other, (indexOf c kind).lookup name = some other → other = x.id := by
  rw [targetIn_eq, Option.map_eq_none_iff, Option.filter_eq_none_iff]
  simp

/-- Looking a name up kind by kind finds what it refers to. -/
theorem importTarget_eq_some_iff (id : String) :
    importTarget (Indexes.ofCatalog c) x name = some (kind, id) ↔ RefersTo c x name kind id := by
  rw [importTarget, findSome?_eq_some_iff]
  constructor
  · rintro ⟨before, found, after, hall, hfound, hbefore⟩
    obtain ⟨rfl, hlookup⟩ := (targetIn_eq_some_iff c x name found (kind, id)).mp hfound
    exact ⟨before, after, hall, hlookup, fun earlier hearlier =>
        (targetIn_eq_none_iff c x name earlier).mp (hbefore earlier hearlier)⟩
  · rintro ⟨before, after, hall, hlookup, hbefore⟩
    exact ⟨before, kind, after, hall,
      (targetIn_eq_some_iff c x name kind (kind, id)).mpr ⟨rfl, hlookup⟩,
      fun earlier hearlier =>
        (targetIn_eq_none_iff c x name earlier).mpr (hbefore earlier hearlier)⟩

/-- A component's references are its imports. -/
theorem mem_importReferencesOf (r : ImportReference) :
    r ∈ importReferencesOf (Indexes.ofCatalog c) x ↔
      r.component = x ∧ Imports c x r.kind r.target := by
  obtain ⟨component, kind, target⟩ := r
  simp only [importReferencesOf, mem_filterMap, Option.map_eq_some_iff, Prod.exists,
    importTarget_eq_some_iff, ImportReference.mk.injEq, Imports]
  constructor
  · rintro ⟨name, hname, k, id, hrefers, rfl, rfl, rfl⟩
    exact ⟨rfl, name, hname, hrefers⟩
  · rintro ⟨rfl, name, hname, hrefers⟩
    exact ⟨name, hname, kind, target, hrefers, rfl, rfl, rfl⟩

/-- Import references are imports. -/
theorem mem_importReferences (r : ImportReference) : r ∈ importReferences (Indexes.ofCatalog c) c ↔
      r.component ∈ c.components ∧ Imports c r.component r.kind r.target := by
  simp only [importReferences, mem_flatMap, mem_importReferencesOf]
  constructor
  · rintro ⟨x, hx, rfl, himports⟩
    exact ⟨hx, himports⟩
  · rintro ⟨hx, himports⟩
    exact ⟨r.component, hx, rfl, himports⟩

/-- The targets of one kind are what a component imports of it. -/
theorem mem_targetsOf (id : String) :
    id ∈ targetsOf (Indexes.ofCatalog c) x kind ↔ Imports c x kind id := by
  simp only [targetsOf, mem_unique, mem_map, mem_filter, mem_importReferencesOf, beq_iff_eq]
  constructor
  · rintro ⟨r, ⟨⟨-, himports⟩, rfl⟩, rfl⟩
    exact himports
  · intro himports
    exact ⟨⟨x, kind, id⟩, ⟨⟨rfl, himports⟩, rfl⟩, rfl⟩

/-- The values that an import brings in through braces. -/
theorem mem_namedValues (i : Source.Import) (f : String) : f ∈ namedValues i ↔
      i.isTypeOnly = false ∧ i.isSideEffect = false ∧ f ∈ i.braceNames ∧ f ∉ i.typeNames := by
  unfold namedValues
  split
  · rename_i h
    constructor
    · intro hf
      exact absurd hf not_mem_nil
    · rintro ⟨htype, hside, -⟩
      simp [htype, hside] at h
  · rename_i h
    simp only [Bool.or_eq_true, not_or, Bool.not_eq_true] at h
    simp [h.1, h.2, mem_filter]

/-- The action references of linking are the functions that a component calls. -/
theorem mem_actionReferencesOf (table : AliasTable) (c : Catalog) (x : Component)
    (r : ActionReference) : r ∈ actionReferencesOf table c x ↔
      r.action ∈ c.serverActionFiles ∧ CallsFunction table x r.action r.function := by
  obtain ⟨action, function⟩ := r
  simp only [actionReferencesOf, mem_flatMap]
  constructor
  · rintro ⟨i, hi, a, ha, hr⟩
    split at hr
    · rename_i hmatch
      simp only [mem_map, mem_filter, mem_namedValues, contains_iff_mem,
        ActionReference.mk.injEq] at hr
      obtain ⟨f, ⟨⟨htype, hside, hbrace, hvalue⟩, hexported⟩, rfl, rfl⟩ := hr
      exact ⟨ha, i, hi, htype, hside, hmatch, hbrace, hvalue, hexported⟩
    · exact absurd hr not_mem_nil
  · rintro ⟨ha, i, hi, htype, hside, hmatch, hbrace, hvalue, hexported⟩
    refine ⟨i, hi, action, ha, ?_⟩
    rw [if_pos hmatch]
    simp only [mem_map, mem_filter, mem_namedValues, contains_iff_mem]
    exact ⟨function, ⟨⟨htype, hside, hbrace, hvalue⟩, hexported⟩, rfl⟩

end SiteAtlas
