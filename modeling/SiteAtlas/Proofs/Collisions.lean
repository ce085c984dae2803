import SiteAtlas.Proofs.Lookup
import Mathlib.Data.List.Induction

/-!
# Lookups without collisions

An index counts a collision when a key already stands for another entity. If it counts none, every
key stands for one entity, and the same registrations in any order answer every name alike.
-/

namespace SiteAtlas.CandidateIndex

open List

/-- A key tells the entity: names of one key stand for one entity. -/
def TellsEntity (key : String → String) (entries : List (String × String)) : Prop :=
  ∀ a ∈ entries, ∀ b ∈ entries, a.1 ≠ "" → b.1 ≠ "" → key a.1 = key b.1 → a.2 = b.2

/-- All names with a key are registered for an entity. -/
def AllFor (key : String → String) (entries : List (String × String)) (name id : String) : Prop :=
  ∀ a ∈ entries, a.1 ≠ "" → key a.1 = key name → a.2 = id

/-- Whether a key tells the entity does not depend on order. -/
theorem TellsEntity.perm {key : String → String} {entries others : List (String × String)}
    (h : TellsEntity key entries) (hperm : entries.Perm others) : TellsEntity key others := by
  intro a ha b hb
  exact h a (hperm.mem_iff.mpr ha) b (hperm.mem_iff.mpr hb)

/-- A registration for its key's entity keeps the key telling. -/
theorem tellsEntity_append_singleton (key : String → String) (entries : List (String × String))
    (name id : String) (hname : name ≠ "") : TellsEntity key (entries ++ [(name, id)]) ↔
      TellsEntity key entries ∧ AllFor key entries name id := by
  constructor
  · intro h
    constructor
    · intro a ha b hb
      exact h a (mem_append_left _ ha) b (mem_append_left _ hb)
    · intro a ha hne hkey
      exact h a (mem_append_left _ ha) (name, id) (by simp) hne hname hkey
  · rintro ⟨htells, hall⟩ a ha b hb hane hbne hkey
    rw [mem_append, mem_singleton] at ha hb
    rcases ha with ha | rfl
    · rcases hb with hb | rfl
      · exact htells a ha b hb hane hbne hkey
      · exact hall a ha hane hkey
    · rcases hb with hb | rfl
      · exact (hall b hb hbne hkey.symm).symm
      · rfl

/-- An empty name changes nothing about what keys tell. -/
theorem tellsEntity_append_empty (key : String → String) (entries : List (String × String))
    (id : String) : TellsEntity key (entries ++ [("", id)]) ↔ TellsEntity key entries := by
  constructor
  · intro h a ha b hb
    exact h a (mem_append_left _ ha) b (mem_append_left _ hb)
  · intro h a ha b hb hane hbne
    rw [mem_append, mem_singleton] at ha hb
    rcases ha with ha | rfl
    · rcases hb with hb | rfl
      · exact h a ha b hb hane hbne
      · exact absurd rfl hbne
    · exact absurd rfl hane

/-- If a key tells the entity, any of its registrations will do. -/
theorem firstWith_eq_some_iff (key : String → String) (entries : List (String × String))
    (h : TellsEntity key entries) (wanted id : String) : firstWith key entries wanted = some id ↔
      ∃ name, name ≠ "" ∧ key name = wanted ∧ (name, id) ∈ entries := by
  unfold firstWith
  rw [Option.map_eq_some_iff]
  constructor
  · rintro ⟨⟨name, found⟩, hfind, rfl⟩
    have htest := find?_some hfind
    simp only [Bool.and_eq_true, Bool.not_eq_true', String.isEmpty_eq_false_iff,
      beq_iff_eq] at htest
    exact ⟨name, htest.1, htest.2, mem_of_find?_eq_some hfind⟩
  · rintro ⟨name, hname, hkey, hmem⟩
    have hsome : (entries.find? fun entry => !entry.1.isEmpty && key entry.1 == wanted).isSome := by
      rw [find?_isSome]
      exact ⟨(name, id), hmem, by simp [hname, hkey]⟩
    obtain ⟨first, hfirst⟩ := Option.isSome_iff_exists.mp hsome
    have htest := find?_some hfirst
    simp only [Bool.and_eq_true, Bool.not_eq_true', String.isEmpty_eq_false_iff,
      beq_iff_eq] at htest
    refine ⟨first, hfirst, ?_⟩
    exact h first (mem_of_find?_eq_some hfirst) (name, id) hmem htest.1 hname
      (htest.2.trans hkey.symm)

/-- If a key tells the entity, the order does not matter. -/
theorem firstWith_perm (key : String → String) (entries others : List (String × String))
    (h : TellsEntity key entries) (hperm : entries.Perm others) :
    firstWith key entries = firstWith key others := by
  funext wanted
  apply Option.ext
  intro id
  rw [firstWith_eq_some_iff key entries h, firstWith_eq_some_iff key others (h.perm hperm)]
  simp only [hperm.mem_iff]

/-- Where keys tell, a registration clashes unless for its entity. -/
theorem clashes_eq_false_iff (tier : CandidateIndex → Keyed String) (key : String → String)
    (hempty : tier {} = []) (hstep : ∀ index name id, tier (index.register name id) =
      if name.isEmpty then tier index else (tier index).putNew (key name) id)
    (entries : List (String × String)) (h : TellsEntity key entries) (name id : String) :
    clashes (tier (({} : CandidateIndex).registerAll entries)) (key name) id = false ↔
      AllFor key entries name id := by
  have hget := get?_registerAll tier key hstep {} entries (key name)
  rw [hempty, Keyed.get?_nil, Option.none_or] at hget
  unfold clashes
  rw [hget]
  cases hfirst : firstWith key entries (key name) with
  | none =>
    refine iff_of_true rfl fun a ha hne hkey => ?_
    have hsome := (firstWith_eq_some_iff key entries h (key name) a.2).mpr ⟨a.1, hne, hkey, ha⟩
    rw [hfirst] at hsome
    cases hsome
  | some found =>
    obtain ⟨first, hfirstName, hfirstKey, hmem⟩ :=
      (firstWith_eq_some_iff key entries h (key name) found).mp hfirst
    simp only [Option.map_some, Option.getD_some, bne_eq_false_iff_eq]
    constructor
    · rintro rfl a ha hne hkey
      exact h a ha (first, found) hmem hne hfirstName (hkey.trans hfirstKey.symm)
    · intro hall
      exact hall (first, found) hmem hfirstName hfirstKey

/-- Registering an empty name changes nothing. -/
theorem register_empty (index : CandidateIndex) (id : String) : index.register "" id = index := rfl

/-- A registration without clash adds no collision. -/
theorem collisions_register_eq_zero_iff (index : CandidateIndex) (name id : String)
    (hname : name ≠ "") : (index.register name id).collisions = 0 ↔ index.collisions = 0 ∧
      clashes index.exact name id = false ∧
      clashes index.lowered (Text.lowerString name) id = false ∧
      clashes index.normalized (normalizeKey name) id = false := by
  have hempty : name.isEmpty = false := String.isEmpty_eq_false_iff.mpr hname
  simp only [register, hempty, Bool.false_eq_true, if_false, Nat.add_eq_zero_iff,
    Bool.toNat_eq_zero, and_assoc]

/-- An index has no collision exactly if all keys tell the entity. -/
theorem collisions_eq_zero_iff (entries : List (String × String)) :
    (({} : CandidateIndex).registerAll entries).collisions = 0 ↔
      TellsEntity id entries ∧ TellsEntity Text.lowerString entries ∧
        TellsEntity normalizeKey entries := by
  -- On the last registration: it clashes with a tier if and only if an earlier one contradicts it.
  induction entries using List.reverseRecOn with
  | nil => simp [registerAll, TellsEntity]
  | append_singleton entries entry ih =>
    obtain ⟨name, id⟩ := entry
    have hlast : ({} : CandidateIndex).registerAll (entries ++ [(name, id)]) =
        (({} : CandidateIndex).registerAll entries).register name id := by
      simp [registerAll]
    rw [hlast]
    by_cases hname : name = ""
    · subst hname
      rw [register_empty, ih]
      simp only [tellsEntity_append_empty]
    · rw [collisions_register_eq_zero_iff _ _ _ hname, ih]
      simp only [tellsEntity_append_singleton _ _ _ _ hname]
      constructor
      · rintro ⟨⟨hexact, hlowered, hnormalized⟩, hclashes⟩
        exact ⟨⟨hexact, (clashes_eq_false_iff exact _ rfl register_exact _ hexact name id).mp
            hclashes.1⟩,
          ⟨hlowered, (clashes_eq_false_iff lowered _ rfl register_lowered _ hlowered name id).mp
            hclashes.2.1⟩,
          ⟨hnormalized, (clashes_eq_false_iff normalized _ rfl register_normalized _ hnormalized
            name id).mp hclashes.2.2⟩⟩
      · rintro ⟨⟨hexact, hexactAll⟩, ⟨hlowered, hloweredAll⟩, hnormalized, hnormalizedAll⟩
        exact ⟨⟨hexact, hlowered, hnormalized⟩,
          (clashes_eq_false_iff exact _ rfl register_exact _ hexact name id).mpr hexactAll,
          (clashes_eq_false_iff lowered _ rfl register_lowered _ hlowered name id).mpr hloweredAll,
          (clashes_eq_false_iff normalized _ rfl register_normalized _ hnormalized name id).mpr
            hnormalizedAll⟩

/-- The order does not matter for collisions. -/
theorem collisions_perm (entries others : List (String × String)) (hperm : entries.Perm others)
    (h : (({} : CandidateIndex).registerAll entries).collisions = 0) :
    (({} : CandidateIndex).registerAll others).collisions = 0 := by
  rw [collisions_eq_zero_iff] at h ⊢
  exact ⟨h.1.perm hperm, h.2.1.perm hperm, h.2.2.perm hperm⟩

/-- Without collisions answers do not depend on the order. -/
theorem lookup_perm (entries others : List (String × String)) (hperm : entries.Perm others)
    (h : (({} : CandidateIndex).registerAll entries).collisions = 0) :
    (({} : CandidateIndex).registerAll entries).lookup =
      (({} : CandidateIndex).registerAll others).lookup := by
  obtain ⟨hexact, hlowered, hnormalized⟩ := (collisions_eq_zero_iff entries).mp h
  funext name
  rw [lookup_registerAll, lookup_registerAll, firstWith_perm id _ _ hexact hperm,
    firstWith_perm Text.lowerString _ _ hlowered hperm,
    firstWith_perm normalizeKey _ _ hnormalized hperm]

end SiteAtlas.CandidateIndex
