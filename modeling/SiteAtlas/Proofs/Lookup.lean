import SiteAtlas.Proofs.EntityTable

/-!
# What lookups answer

An index answers a name with the first registration of the name, failing that of its lower-case
form, and failing that of its normalized form. The answer identifies an entity of the index's kind.
-/

namespace SiteAtlas

open List

/-- A new value goes in only where there is none. -/
theorem Keyed.get?_putNew {α : Type} (table : Keyed α) (key : String) (value : α) (other : String) :
    (table.putNew key value).get? other =
      (table.get? other).or (if key = other then some value else none) := by
  unfold putNew has
  cases hkey : table.get? key with
  | some old =>
    by_cases h : key = other
    · subst h
      simp [hkey]
    · simp [h]
  | none =>
    by_cases h : key = other
    · subst h
      simp [get?, lookup_append]
    · have hother : (other == key) = false := by simpa using Ne.symm h
      simp [get?, lookup_append, lookup_cons, h, hother]

namespace CandidateIndex

/-- The entity of the first registration of a key, names not empty. -/
def firstWith (key : String → String) (entries : List (String × String)) (wanted : String) :
    Option String :=
  (entries.find? fun entry => !entry.1.isEmpty && key entry.1 == wanted).map (·.2)

/-- Registering puts a name into the first tier. -/
theorem register_exact (index : CandidateIndex) (name id : String) :
    (index.register name id).exact =
      if name.isEmpty then index.exact else index.exact.putNew name id := by
  unfold register
  split <;> rfl

/-- Registering puts a name's lower-case form into the second tier. -/
theorem register_lowered (index : CandidateIndex) (name id : String) :
    (index.register name id).lowered =
      if name.isEmpty then index.lowered else index.lowered.putNew (Text.lowerString name) id := by
  unfold register
  split <;> rfl

/-- Registering puts a name's normalized form into the third tier. -/
theorem register_normalized (index : CandidateIndex) (name id : String) :
    (index.register name id).normalized = if name.isEmpty then index.normalized
      else index.normalized.putNew (normalizeKey name) id := by
  unfold register
  split <;> rfl

/-- A tier by a key keeps the first registration of each key. -/
theorem get?_registerAll (tier : CandidateIndex → Keyed String) (key : String → String)
    (hstep : ∀ index name id, tier (index.register name id) =
      if name.isEmpty then tier index else (tier index).putNew (key name) id)
    (index : CandidateIndex) (entries : List (String × String)) (wanted : String) :
    (tier (index.registerAll entries)).get? wanted =
      ((tier index).get? wanted).or (firstWith key entries wanted) := by
  induction entries generalizing index with
  | nil => simp [registerAll, firstWith]
  | cons entry entries ih =>
    obtain ⟨name, id⟩ := entry
    change (tier ((index.register name id).registerAll entries)).get? wanted = _
    rw [ih, hstep]
    by_cases hempty : name.isEmpty = true
    · simp [hempty, firstWith]
    · rw [if_neg hempty, Keyed.get?_putNew, Option.or_assoc]
      congr 1
      by_cases hkey : key name = wanted
      · simp [firstWith, hempty, hkey]
      · simp [firstWith, hkey]

/-- The exact name goes before the lower-case and the normalized one. -/
theorem lookup_registerAll (entries : List (String × String)) (name : String) :
    (({} : CandidateIndex).registerAll entries).lookup name = ((firstWith id entries name).or
        (firstWith Text.lowerString entries (Text.lowerString name))).or
          (firstWith normalizeKey entries (normalizeKey name)) := by
  unfold lookup
  rw [get?_registerAll exact id register_exact,
    get?_registerAll lowered Text.lowerString register_lowered,
    get?_registerAll normalized normalizeKey register_normalized]
  rfl

/-- The first registration of a key is one of the registrations. -/
theorem mem_of_firstWith (key : String → String) (entries : List (String × String))
    (wanted id : String) (h : firstWith key entries wanted = some id) :
    ∃ name, (name, id) ∈ entries := by
  obtain ⟨⟨name, found⟩, hfind, rfl⟩ := Option.map_eq_some_iff.mp h
  exact ⟨name, mem_of_find?_eq_some hfind⟩

/-- An index answers only with what was registered. -/
theorem mem_of_lookup (entries : List (String × String)) (name id : String)
    (h : (({} : CandidateIndex).registerAll entries).lookup name = some id) :
    ∃ registered, (registered, id) ∈ entries := by
  rw [lookup_registerAll, Option.or_eq_some_iff, Option.or_eq_some_iff] at h
  rcases h with (h | ⟨-, h⟩) | ⟨-, h⟩
  · exact mem_of_firstWith _ _ _ _ h
  · exact mem_of_firstWith _ _ _ _ h
  · exact mem_of_firstWith _ _ _ _ h

end CandidateIndex

/-- Only identifiers of entities of a kind are registered for the kind. -/
theorem id_of_mem_registrations (c : Catalog) (kind : TargetKind) (name id : String)
    (h : (name, id) ∈ registrations c kind) : ∃ e ∈ c.entitiesOf kind, e.id = id := by
  cases kind <;> simp only [registrations, mem_append, mem_map, mem_flatMap,
    Prod.mk.injEq] at h <;> simp only [Catalog.entitiesOf, mem_map, exists_exists_and_eq_and]
  case component =>
    rcases h with ⟨x, hx, -, rfl⟩ | ⟨x, hx, -, -, -, rfl⟩ <;> exact ⟨x, hx, rfl⟩
  case hook =>
    obtain ⟨x, hx, -, rfl⟩ := h
    exact ⟨x, hx, rfl⟩
  case context =>
    rcases h with ⟨x, hx, -, rfl⟩ | ⟨x, hx, -, rfl⟩ <;> exact ⟨x, hx, rfl⟩
  case utility =>
    rcases h with ⟨x, hx, -, rfl⟩ | ⟨x, hx, -, -, -, rfl⟩ <;> exact ⟨x, hx, rfl⟩
  case store =>
    rcases h with ⟨x, hx, -, rfl⟩ | ⟨x, hx, -, -, -, rfl⟩ <;> exact ⟨x, hx, rfl⟩

/-- A lookup for a kind finds the identifier of one of its entities. -/
theorem exists_entity_of_lookup (c : Catalog) (kind : TargetKind) (name id : String)
    (h : (indexOf c kind).lookup name = some id) : ∃ e ∈ c.entitiesOf kind, e.id = id := by
  obtain ⟨registered, hmem⟩ := CandidateIndex.mem_of_lookup _ _ _ h
  exact id_of_mem_registrations c kind registered id hmem

/-- A lookup for a kind finds an identifier with its label. -/
theorem idLabel_of_lookup (c : Catalog) (kind : TargetKind) (name id : String)
    (h : (indexOf c kind).lookup name = some id) : idLabel id = kind.label.toList := by
  obtain ⟨e, he, rfl⟩ := exists_entity_of_lookup c kind name id h
  rw [e.idLabel_id, ((c.mem_entitiesOf kind e).mp he).2]

end SiteAtlas
