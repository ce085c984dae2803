import SiteAtlas.Graph.Link
import Mathlib.Data.List.Nodup

/-!
# Collecting values without repetition

Values are appended unless the list has them. Such a list holds exactly what was offered, without
repetition, and offering it again changes nothing.
-/

namespace SiteAtlas

open List

/-- A way of adding values that notes each once: a noted value changes nothing, an added one is
noted, and what is noted stays so. -/
structure NotesOnce {α β : Type} (noted : β → α → Prop) (add : β → α → β) : Prop where
  add_of_noted : ∀ {b a}, noted b a → add b a = b
  noted_add : ∀ b a, noted (add b a) a
  noted_add_of_noted : ∀ {b a} other, noted b a → noted (add b other) a

namespace NotesOnce

variable {α β : Type} {noted : β → α → Prop} {add : β → α → β}

/-- What is noted stays so while other values are added. -/
theorem noted_foldl_of_noted (h : NotesOnce noted add) (b : β) (more : List α) (a : α)
    (ha : noted b a) : noted (more.foldl add b) a := by
  induction more generalizing b with
  | nil => exact ha
  | cons other more ih => exact ih _ (h.noted_add_of_noted other ha)

/-- All added values are noted. -/
theorem noted_foldl (h : NotesOnce noted add) (b : β) (more : List α) (a : α) (ha : a ∈ more) :
    noted (more.foldl add b) a := by
  induction more generalizing b with
  | nil => exact absurd ha not_mem_nil
  | cons other more ih =>
    rcases mem_cons.mp ha with rfl | hmore
    · exact h.noted_foldl_of_noted _ more a (h.noted_add b a)
    · exact ih _ hmore

/-- Adding values that are all noted changes nothing. -/
theorem foldl_of_noted (h : NotesOnce noted add) (b : β) (more : List α)
    (hmore : ∀ a ∈ more, noted b a) : more.foldl add b = b := by
  induction more with
  | nil => rfl
  | cons a more ih =>
    rw [foldl_cons, h.add_of_noted (hmore a mem_cons_self)]
    exact ih fun other hother => hmore other (mem_cons_of_mem _ hother)

/-- Adding the same values a second time changes nothing. -/
theorem foldl_foldl (h : NotesOnce noted add) (b : β) (more : List α) :
    more.foldl add (more.foldl add b) = more.foldl add b :=
  h.foldl_of_noted _ more (h.noted_foldl b more)

end NotesOnce

section

variable {α : Type} [BEq α] [LawfulBEq α]

/-- A value that the list has already changes nothing. -/
theorem addUnique_of_mem (items : List α) (item : α) (h : item ∈ items) :
    Text.addUnique items item = items := by
  simp [Text.addUnique, h]

/-- A value that the list lacks goes to its end. -/
theorem addUnique_of_not_mem (items : List α) (item : α) (h : item ∉ items) :
    Text.addUnique items item = items ++ [item] := by
  simp [Text.addUnique, h]

/-- One turn adds the offered value and nothing else. -/
theorem mem_addUnique (items : List α) (item x : α) :
    x ∈ Text.addUnique items item ↔ x ∈ items ∨ x = item := by
  by_cases h : item ∈ items
  · rw [addUnique_of_mem items item h]
    constructor
    · exact Or.inl
    · rintro (hx | rfl)
      · exact hx
      · exact h
  · rw [addUnique_of_not_mem items item h, mem_append, mem_singleton]

/-- One turn of collecting repeats no value. -/
theorem nodup_addUnique (items : List α) (item : α) (h : items.Nodup) :
    (Text.addUnique items item).Nodup := by
  by_cases hitem : item ∈ items
  · rw [addUnique_of_mem items item hitem]
    exact h
  · rw [addUnique_of_not_mem items item hitem]
    rw [← concat_eq_append]
    exact h.concat hitem

/-- Collecting holds what was there or was offered. -/
theorem mem_foldl_addUnique (items more : List α) (x : α) :
    x ∈ more.foldl Text.addUnique items ↔ x ∈ items ∨ x ∈ more := by
  induction more generalizing items with
  | nil => simp
  | cons item more ih =>
    rw [foldl_cons, ih, mem_addUnique, mem_cons, or_assoc]

/-- Collecting repeats no value. -/
theorem nodup_foldl_addUnique (items more : List α) (h : items.Nodup) :
    (more.foldl Text.addUnique items).Nodup := by
  induction more generalizing items with
  | nil => exact h
  | cons item more ih => exact ih _ (nodup_addUnique items item h)

/-- Collecting appends the new values, each once. -/
theorem foldl_addUnique_eq_append (items more : List α) :
    ∃ fresh, more.foldl Text.addUnique items = items ++ fresh ∧ fresh.Nodup ∧
      ∀ x, x ∈ fresh ↔ x ∈ more ∧ x ∉ items := by
  induction more generalizing items with
  | nil => exact ⟨[], by simp⟩
  | cons item more ih =>
    rw [foldl_cons]
    by_cases hitem : item ∈ items
    · rw [addUnique_of_mem items item hitem]
      obtain ⟨fresh, heq, hnodup, hmem⟩ := ih items
      refine ⟨fresh, heq, hnodup, fun x => ?_⟩
      rw [hmem, mem_cons]
      constructor
      · rintro ⟨hmore, hx⟩
        exact ⟨Or.inr hmore, hx⟩
      · rintro ⟨rfl | hmore, hx⟩
        · exact absurd hitem hx
        · exact ⟨hmore, hx⟩
    · rw [addUnique_of_not_mem items item hitem]
      obtain ⟨fresh, heq, hnodup, hmem⟩ := ih (items ++ [item])
      refine ⟨item :: fresh, by simp [heq], ?_, fun x => ?_⟩
      · refine nodup_cons.mpr ⟨fun hfresh => ?_, hnodup⟩
        exact ((hmem item).mp hfresh).2 (by simp)
      · rw [mem_cons, mem_cons, hmem, mem_append, mem_singleton]
        by_cases hx : x = item
        · simp [hx, hitem]
        · simp [hx]

/-- Adding unique items notes each once. -/
theorem notesOnce_addUnique :
    NotesOnce (fun (items : List α) item => item ∈ items) Text.addUnique where
  add_of_noted := addUnique_of_mem _ _
  noted_add items item := (mem_addUnique items item item).mpr (Or.inr rfl)
  noted_add_of_noted other h := (mem_addUnique _ other _).mpr (Or.inl h)

/-- Removing repetitions keeps exactly the values. -/
@[simp] theorem mem_unique (items : List α) (x : α) : x ∈ Text.unique items ↔ x ∈ items := by
  simp [Text.unique, mem_foldl_addUnique]

/-- Removing repetitions leaves none. -/
theorem nodup_unique (items : List α) : (Text.unique items).Nodup :=
  nodup_foldl_addUnique [] items nodup_nil

end

/-- An empty list takes what is offered, without repetitions. -/
theorem addAll_nil (more : List String) : addAll [] more = Text.unique more := rfl

/-- Offering the same values a second time changes nothing. -/
theorem addAll_addAll (items more : List String) :
    addAll (addAll items more) more = addAll items more :=
  notesOnce_addUnique.foldl_foldl items more

/-- Another order gives the same list up to order. -/
theorem addAll_perm (items more others : List String) (h : ∀ x, x ∈ more ↔ x ∈ others) :
    (addAll items more).Perm (addAll items others) := by
  obtain ⟨fresh, heq, hnodup, hmem⟩ := foldl_addUnique_eq_append items more
  obtain ⟨freshToo, heqToo, hnodupToo, hmemToo⟩ := foldl_addUnique_eq_append items others
  rw [addAll, heq, addAll, heqToo]
  refine List.Perm.append_left items ((perm_ext_iff_of_nodup hnodup hnodupToo).mpr fun x => ?_)
  rw [hmem, hmemToo, h]

end SiteAtlas
