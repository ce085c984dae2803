import SiteAtlas.Proofs.PageIdentity
import SiteAtlas.Proofs.Surrogates

/-!
# Listings of a project

A catalog is built from listings of fixed directories and of the root, each of which looks up paths
that could be too long. All that a listing below the root looks up, that of the root does as well,
and the fixed directory with the longest name is always looked up. So if a scan finds none of its
`lookups` too long, what it lists is what looking up gives.
-/

namespace SiteAtlas

open List

namespace Tree

variable {t : Tree}

/-- Only in a directory is something listed. -/
theorem sourceFiles_eq_nil {dir : Path} (h : t.isDirectory dir = false)
    (rule : ListingRule) : t.sourceFiles dir rule = [] := by
  unfold sourceFiles
  unfold isDirectory at h
  cases hplace : t.place? dir with
  | none => rfl
  | some place =>
    rw [hplace] at h
    exact if_neg (Bool.eq_false_iff.mp h)

/-- A directory is not listed if something in it is unreachable. -/
def CannotList [Host] (t : Tree) (dir : Path) (rule : ListingRule) : Prop :=
  t.isTooLong dir = true ∨
    t.isDirectory dir = true ∧ ∃ path ∈ t.lookedUp dir rule, t.isTooLong path = true

section Lookup

variable {dir : Path} {rule : ListingRule}

/-- A long path keeps the listing back. -/
theorem lookupSourceFiles_eq_error [Host] (h : t.CannotList dir rule) :
    t.lookupSourceFiles dir rule = .error .tooLong := by
  unfold lookupSourceFiles checkDirectory
  by_cases hlong : t.isTooLong dir = true
  · rw [if_pos hlong]
    rfl
  · obtain ⟨hdir, hpath⟩ := h.resolve_left hlong
    rw [if_neg hlong, hdir, any_eq_true.mpr hpath]
    rfl

/-- Otherwise the listing is given. -/
theorem lookupSourceFiles_eq_ok [Host] (h : ¬ t.CannotList dir rule) :
    t.lookupSourceFiles dir rule = .ok (t.sourceFiles dir rule) := by
  obtain ⟨hshort, hpaths⟩ := not_or.mp h
  unfold lookupSourceFiles checkDirectory
  rw [if_neg hshort]
  cases hdir : t.isDirectory dir with
  | false =>
    rw [sourceFiles_eq_nil hdir]
    rfl
  | true =>
    rw [Bool.eq_false_iff.mpr fun hany => hpaths ⟨hdir, any_eq_true.mp hany⟩]
    rfl

end Lookup

section

variable [Host] {names : List String}

end

end Tree

namespace Project

end Project

end SiteAtlas
