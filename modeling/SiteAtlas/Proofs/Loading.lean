import SiteAtlas.Catalog.Build
import SiteAtlas.Proofs.Collecting
import Mathlib.Data.List.Induction

/-!
# Loading facts in any order

Each result goes into the slot of its file, so in the end the slots hold the results in the order of
the files. Over any batches the table says of a file what its text says if it was asked for, and
nothing otherwise.
-/

namespace SiteAtlas

open List

open SiteAtlas.Source (Fact)

variable (tree : Tree) (schedule : Schedule)

namespace Assignment

variable {α : Type} (test : Path → Option α) (files : List Path)

/-- Whether a file qualifies does not depend on later ones. -/
theorem qualify_cons (first : Path) :
    qualify test (first :: files) = ((test first).map (first, ·)).toList ++ qualify test files := by
  rw [qualify, filterMap_cons]
  cases test first <;> rfl

/-- Files that qualify keep their order. -/
theorem map_fst_qualify : (qualify test files).map Prod.fst = files.filter (test · |>.isSome) := by
  induction files with
  | nil => rfl
  | cons first rest ih =>
    rw [qualify_cons, map_append, ih]
    cases hfirst : test first <;> simp [hfirst]

/-- Looking a file up among those that qualify is testing it. -/
theorem lookup_qualify (file : Path) :
    (qualify test files).lookup file = if file ∈ files then test file else none := by
  induction files with
  | nil => rfl
  | cons first rest ih =>
    rw [qualify_cons, lookup_append, ih]
    by_cases heq : file = first
    · subst heq
      cases test file <;> simp
    · cases test first <;> simp [heq, lookup_cons, beq_false_of_ne heq]

end Assignment

/-- Every job finishes once, in whatever order. -/
def Schedule.Complete (schedule : Schedule) : Prop :=
  ∀ n, (schedule.order n).Perm (List.range n)

namespace FactTable

/-- A slot holds the result of its job once finished. -/
theorem getElem?_foldl_fillSlot (result : ℕ → Option Fact) (finished : List ℕ)
    (slots : List (Option Fact)) (i : ℕ) :
    ((finished.map fun j => (j, result j)).foldl fillSlot slots)[i]? =
      if i ∈ finished then slots[i]?.map fun _ => result i else slots[i]? := by
  induction finished generalizing slots with
  | nil => simp
  | cons first later ih =>
    rw [map_cons, foldl_cons, ih]
    change (if i ∈ later then ((slots.set first (result first))[i]?).map _
      else (slots.set first (result first))[i]?) = _
    by_cases hfirst : first = i
    · subst hfirst
      by_cases hlater : first ∈ later <;> simp [hlater, getElem?_set_self', Function.const_def]
    · simp [getElem?_set_ne hfirst, Ne.symm hfirst]

/-- When all jobs are done, the results are in order. -/
theorem results_eq_map (h : schedule.Complete) (files : List Path) :
    results tree schedule files = files.map (extract? tree) := by
  apply ext_getElem?
  intro i
  have hfinished : i ∈ schedule.order files.length ↔ i < files.length := by
    rw [(h files.length).mem_iff, mem_range]
  unfold results
  rw [getElem?_foldl_fillSlot (fun j => files[j]?.bind (extract? tree)), getElem?_map, getElem?_map]
  by_cases hi : i < files.length
  · simp [hfinished, hi]
  · simp [hfinished, hi]

/-- The files that wait are the unknown ones asked for. -/
theorem mem_pending (table : FactTable) (files : List Path) (file : Path) :
    file ∈ table.pending files ↔ file ∈ files ∧ table.fact? file = none := by
  simp [pending]

/-- A batch adds the files that wait and can be read. -/
theorem load_eq (h : schedule.Complete) (table : FactTable) (files : List Path) :
    load tree schedule table files =
      table ++ Assignment.qualify (extract? tree) (table.pending files) := by
  have hzip (waiting : List Path) : waiting.zip (waiting.map (extract? tree)) =
      waiting.map fun file => (file, extract? tree file) := by
    simpa using zip_map' (f := id) (g := extract? tree) (l := waiting)
  simp only [load, results_eq_map tree schedule h, hzip, filterMap_map]
  rfl

/-- A batch adds to the table what the texts of unknown files say. -/
theorem fact?_load (h : schedule.Complete) (table : FactTable) (files : List Path) (file : Path) :
    (load tree schedule table files).fact? file =
      (table.fact? file).or (if file ∈ files then extract? tree file else none) := by
  rw [load_eq tree schedule h, fact?, lookup_append, Assignment.lookup_qualify]
  change (table.fact? file).or _ = _
  cases hknown : table.fact? file with
  | some fact => rfl
  | none => simp only [mem_pending, hknown, and_true]

/-- A batch lists no file twice if the table did not. -/
theorem nodup_load (h : schedule.Complete) (table : FactTable) (files : List Path)
    (hnodup : (table.map Prod.fst).Nodup) :
    ((load tree schedule table files).map Prod.fst).Nodup := by
  rw [load_eq tree schedule h, map_append, Assignment.map_fst_qualify]
  have hpending : (table.pending files).Nodup :=
    (mergeSort_perm _ _).nodup_iff.mpr (nodup_unique _)
  refine hnodup.append (hpending.filter _) ?_
  intro file hknown hnew
  have hunknown := ((mem_pending table files file).mp (mem_of_mem_filter hnew)).2
  obtain ⟨⟨_, fact⟩, hmem, rfl⟩ := mem_map.mp hknown
  rw [fact?, lookup_eq_none_iff] at hunknown
  simpa using hunknown _ hmem

/-- The table after several batches, each with a schedule of its own. -/
def ofBatches (tree : Tree) (batches : List (Schedule × List Path)) : FactTable :=
  batches.foldl (fun table batch => load tree batch.1 table batch.2) []

/-- After any batches the table says of files asked for what texts say. -/
theorem fact?_ofBatches (batches : List (Schedule × List Path))
    (h : ∀ batch ∈ batches, batch.1.Complete) (file : Path) : (ofBatches tree batches).fact? file =
      if ∃ batch ∈ batches, file ∈ batch.2 then extract? tree file else none := by
  induction batches using List.reverseRecOn with
  | nil => simp [ofBatches, fact?]
  | append_singleton earlier last ih =>
    have hearlier := ih fun batch hbatch => h batch (mem_append_left _ hbatch)
    rw [ofBatches, foldl_append, foldl_cons, foldl_nil]
    change (load tree last.1 (ofBatches tree earlier) last.2).fact? file = _
    rw [fact?_load tree last.1 (h last (by simp)), hearlier]
    -- A file that was asked for before cannot be read if the table does not know it.
    by_cases hbefore : ∃ batch ∈ earlier, file ∈ batch.2
    · have hagain : ∃ batch ∈ earlier ++ [last], file ∈ batch.2 := by
        obtain ⟨batch, hbatch, hfile⟩ := hbefore
        exact ⟨batch, mem_append_left _ hbatch, hfile⟩
      rw [if_pos hbefore, if_pos hagain]
      by_cases hlast : file ∈ last.2 <;> cases extract? tree file <;> simp [hlast]
    · have hiff : (∃ batch ∈ earlier ++ [last], file ∈ batch.2) ↔ file ∈ last.2 := by
        simp only [mem_append, mem_singleton, or_and_right, exists_or, hbefore, false_or,
          exists_eq_left]
      rw [if_neg hbefore, Option.none_or]
      simp only [hiff]

end FactTable

end SiteAtlas
