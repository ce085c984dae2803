import SiteAtlas.Catalog.Build
import Mathlib.Data.List.Sort
import Mathlib.Data.Prod.Lex
import Mathlib.Data.String.Basic

/-!
# Sorting by a key

A sorted list is in order of the keys, and if keys tell items apart, the order before sorting is
lost.
-/

namespace SiteAtlas

section Keys

variable {α κ : Type*} [LinearOrder κ] (before : α → α → Bool) (key : α → κ)
  (h : ∀ a b, before a b = true ↔ key a ≤ key b)
include h

/-- Sorting by a key gives its order. -/
theorem pairwise_mergeSort_of_key (items : List α) :
    (items.mergeSort before).Pairwise fun a b => key a ≤ key b := by
  have htrans (a b c : α) (hab : before a b = true) (hbc : before b c = true) :
      before a c = true := by
    rw [h] at *
    exact le_trans hab hbc
  have htotal (a b : α) : (before a b || before b a) = true := by
    rw [Bool.or_eq_true, h, h]
    exact le_total (key a) (key b)
  exact (List.pairwise_mergeSort htrans htotal items).imp fun hab => (h _ _).mp hab

/-- If keys tell items apart, then the order before sorting is lost. -/
theorem mergeSort_eq_of_perm (hkey : Function.Injective key) (items others : List α)
    (hperm : items.Perm others) : items.mergeSort before = others.mergeSort before := by
  apply List.Perm.eq_of_pairwise (fun a b _ _ hab hba => hkey (le_antisymm hab hba))
    (pairwise_mergeSort_of_key before key h items) (pairwise_mergeSort_of_key before key h others)
  exact (List.mergeSort_perm items before).trans
    (hperm.trans (List.mergeSort_perm others before).symm)

end Keys

/-- Pairs of texts are compared by the first, and then by the second. -/
theorem Text.pairLE_iff (a b : String × String) : Text.pairLE a b = true ↔ toLex a ≤ toLex b := by
  rw [Text.pairLE, Prod.Lex.toLex_le_toLex]
  by_cases hlt : a.1 < b.1
  · simp [hlt]
  · by_cases heq : a.1 = b.1 <;> simp [hlt, heq]

/-- A list that is sorted by two texts is in order of both. -/
theorem pairwise_sortByPair {α : Type} (key : α → String × String) (items : List α) :
    (sortByPair key items).Pairwise fun a b => toLex (key a) ≤ toLex (key b) :=
  pairwise_mergeSort_of_key _ (fun x => toLex (key x)) (fun _ _ => Text.pairLE_iff _ _) items

/-- Sorting by text gives its order. -/
theorem pairwise_sortByText {α : Type} (key : α → String) (items : List α) :
    (sortByText key items).Pairwise fun a b => key a ≤ key b :=
  pairwise_mergeSort_of_key _ key (fun _ _ => decide_eq_true_iff) items

end SiteAtlas
