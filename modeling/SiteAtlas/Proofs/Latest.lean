import SiteAtlas.Graph.Link
import Mathlib.Data.List.Nodup

/-!
# The last item of an identifier

Of items that share an identifier, the last answers to it. Looking it up is reading a keyed list
that was filled in order, and changing it leaves all others alone.
-/

namespace SiteAtlas

open List

variable {α β : Type}

variable (id : α → String) (change : α → α) (items : List α) (wanted : String)

/-- The later of two lists answers first. -/
theorem lastWith?_append (left right : List α) (wanted : String) :
    lastWith? id (left ++ right) wanted =
      (lastWith? id right wanted).or (lastWith? id left wanted) := by
  simp [lastWith?, filter_append, getLast?_append]

/-- The first item answers only if no later one does. -/
theorem lastWith?_cons (a : α) (rest : List α) (wanted : String) : lastWith? id (a :: rest) wanted =
      (lastWith? id rest wanted).or (if id a = wanted then some a else none) := by
  rw [← singleton_append, lastWith?_append]
  by_cases h : id a = wanted <;> simp [lastWith?, h]

/-- Looking up in a mapped list maps the answer. -/
theorem lastWith?_map (f : α → β) (id : β → String) (items : List α) (wanted : String) :
    lastWith? id (items.map f) wanted = (lastWith? (id ∘ f) items wanted).map f := by
  simp [lastWith?, filter_map, getLast?_map, Function.comp_def]

/-- The item that answers is in the list and has the identifier. -/
theorem mem_of_lastWith? (a : α) (h : lastWith? id items wanted = some a) :
    a ∈ items ∧ id a = wanted := by
  have hmem := mem_filter.mp (mem_of_getLast? h)
  exact ⟨hmem.1, by simpa using hmem.2⟩

/-- An identifier that no item has gets no answer. -/
theorem lastWith?_eq_none : lastWith? id items wanted = none ↔ ∀ a ∈ items, id a ≠ wanted := by
  simp [lastWith?]

/-- Every identifier in the list gets an answer. -/
theorem exists_lastWith? (a : α) (h : a ∈ items) : ∃ b, lastWith? id items (id a) = some b := by
  cases hlast : lastWith? id items (id a) with
  | some b => exact ⟨b, rfl⟩
  | none => exact absurd rfl ((lastWith?_eq_none id items (id a)).mp hlast a h)

/-- Items that cannot have the identifier may be left out. -/
theorem lastWith?_filter (keep : α → Bool) (items : List α) (wanted : String)
    (h : ∀ a ∈ items, id a = wanted → keep a = true) :
    lastWith? id (items.filter keep) wanted = lastWith? id items wanted := by
  unfold lastWith?
  rw [filter_filter]
  congr 1
  apply filter_congr
  intro a ha
  by_cases hid : id a = wanted
  · simp [hid, h a ha hid]
  · simp [hid]

/-- Without shared identifiers every item answers to its own. -/
theorem lastWith?_eq_some_iff (h : (items.map id).Nodup) (wanted : String) (a : α) :
    lastWith? id items wanted = some a ↔ a ∈ items ∧ id a = wanted := by
  refine ⟨mem_of_lastWith? id items wanted a, ?_⟩
  rintro ⟨ha, rfl⟩
  obtain ⟨b, hb⟩ := exists_lastWith? id items a ha
  obtain ⟨hmem, hid⟩ := mem_of_lastWith? id items (id a) b hb
  rw [hb, inj_on_of_nodup_map h hmem ha hid]

/-- Without shared identifiers the order does not matter. -/
theorem lastWith?_perm (others : List α) (h : (items.map id).Nodup) (hperm : items.Perm others) :
    lastWith? id items = lastWith? id others := by
  funext wanted
  apply Option.ext
  intro a
  rw [lastWith?_eq_some_iff id items h,
    lastWith?_eq_some_iff id others ((hperm.map id).nodup_iff.mp h), hperm.mem_iff]

/-- Writing items leaves the last one of each identifier. -/
theorem get?_foldl_put (id : β → String) (value : β → α) (items : List β) (table : Keyed α)
    (wanted : String) :
    (items.foldl (fun table b => table.put (id b) (value b)) table).get? wanted =
      ((lastWith? id items wanted).map value).or (table.get? wanted) := by
  induction items generalizing table with
  | nil => simp [lastWith?]
  | cons b items ih =>
    rw [foldl_cons, ih, Keyed.get?_put, lastWith?_cons]
    cases lastWith? id items wanted with
    | some later => rfl
    | none =>
      by_cases h : id b = wanted
      · simp [h]
      · simp [h, Ne.symm h]

/-- A change that a view does not show keeps the view. -/
theorem map_mapLast_of_eq (view : α → β) (h : ∀ a, view (change a) = view a) (items : List α) :
    (mapLast id change items).map view = items.map view := by
  induction items with
  | nil => rfl
  | cons a rest ih =>
    rw [mapLast, map_cons, map_cons, ih]
    split
    · rfl
    · rw [h]

/-- A change that keeps identifiers keeps which occur. -/
theorem any_mapLast (h : ∀ a, id (change a) = id a) (items : List α) (wanted : String) :
    (mapLast id change items).any (id · == wanted) = items.any (id · == wanted) := by
  have hids := map_mapLast_of_eq id change id h items
  have hview := congrArg (fun ids : List String => ids.any (· == wanted)) hids
  simpa only [any_map, Function.comp_def] using hview

/-- Changing last items twice is one change. -/
theorem mapLast_mapLast (first second : α → α) (h : ∀ a, id (first a) = id a) (items : List α) :
    mapLast id second (mapLast id first items) = mapLast id (second ∘ first) items := by
  induction items with
  | nil => rfl
  | cons a rest ih =>
    by_cases hlater : rest.any (id · == id a) = true
    · simp only [mapLast, hlater, if_true, any_mapLast id first h, ih]
    · simp only [mapLast, if_neg hlater, h, any_mapLast id first h, ih, Function.comp_apply]

/-- Changes of all and of last items trade places if they commute. -/
theorem map_mapLast_comm (own : α → α) (hid : ∀ a, id (own a) = id a)
    (hcomm : ∀ a, own (change a) = change (own a)) (items : List α) :
    (mapLast id change items).map own = mapLast id change (items.map own) := by
  induction items with
  | nil => rfl
  | cons a rest ih =>
    have hany : (rest.map own).any (id · == id (own a)) = rest.any (id · == id a) := by
      rw [any_map, hid a]
      congr 1
      funext b
      simp [hid]
    simp only [mapLast, map_cons, ih, hany]
    split
    · rfl
    · rw [hcomm]

/-- An item of the changed list is an old one, or changed. -/
theorem mem_mapLast (x : α) (h : x ∈ mapLast id change items) :
    ∃ a ∈ items, x = a ∨ x = change a := by
  induction items with
  | nil => simp [mapLast] at h
  | cons a rest ih =>
    rw [mapLast, mem_cons] at h
    rcases h with rfl | hrest
    · refine ⟨a, mem_cons_self, ?_⟩
      split
      · exact Or.inl rfl
      · exact Or.inr rfl
    · obtain ⟨b, hb, hx⟩ := ih hrest
      exact ⟨b, mem_cons_of_mem _ hb, hx⟩

/-- Without shared identifiers every item is changed. -/
theorem mapLast_eq_map (h : (items.map id).Nodup) : mapLast id change items = items.map change := by
  induction items with
  | nil => rfl
  | cons a rest ih =>
    obtain ⟨hfresh, hrest⟩ := nodup_cons.mp h
    have hlater : rest.any (id · == id a) = false := by
      rw [any_eq_false]
      intro b hb heq
      exact hfresh (mem_map.mpr ⟨b, hb, by simpa using heq⟩)
    rw [mapLast, hlater, ih hrest]
    rfl

end SiteAtlas
