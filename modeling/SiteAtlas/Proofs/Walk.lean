import SiteAtlas.Graph.Closure
import Mathlib.Data.List.Nodup
import Mathlib.Data.List.Perm.Subperm

/-!
# A walk visits what can be reached

A component is noted when it is first met, so it is visited at most once. At every turn those met
are the visited and the waiting, all can be reached from the start, and whatever a visited one
imports was met. If only finitely many can be reached, the walk has visited exactly them in the
end, whatever cycles there are.
-/

open scoped List

namespace SiteAtlas

open List

variable (w : Walk)

/-- One component reaches another by following imports any number of times. -/
def Reaches (children : String → List String) : String → String → Prop :=
  Relation.ReflTransGen fun a b => b ∈ children a

namespace Walk

variable {children : String → List String} {start : String}

/-- The state of a walk before its first turn. -/
def initial (start : String) : Walk :=
  ⟨[start], [start], []⟩

/-- What holds of a walk at every turn. -/
structure Invariant (children : String → List String) (start : String) (w : Walk) : Prop where
  nodup : w.met.Nodup
  begins : w.met.head? = some start
  /-- A component that was met was visited or waits. -/
  split : w.met.Perm (w.visited ++ w.stack)
  reached : ∀ id ∈ w.met, Reaches children start id
  closed : ∀ id ∈ w.visited, ∀ child ∈ children id, child ∈ w.met

/-- A walk starts with its first component met and waiting. -/
theorem invariant_initial : Invariant children start (initial start) where
  nodup := nodup_singleton start
  begins := rfl
  split := List.Perm.refl _
  reached := by
    intro id hid
    rw [mem_singleton.mp hid]
    exact Relation.ReflTransGen.refl
  closed := by simp [initial]

/-- A visit notes the components imported and not met before. -/
theorem mem_met_visit (current : String) (rest : List String) (id : String) :
    id ∈ (w.visit children current rest).met ↔ id ∈ w.met ∨ id ∈ children current := by
  by_cases h : id ∈ w.met <;> simp [visit, h]

/-- A visit moves a component to visited; newly met ones wait. -/
theorem split_visit (current : String) (rest : List String) (hstack : w.stack = current :: rest)
    (hsplit : w.met.Perm (w.visited ++ w.stack)) : (w.visit children current rest).met.Perm
      ((w.visit children current rest).visited ++ (w.visit children current rest).stack) := by
  let new := (children current).reverse.filter (!w.met.contains ·)
  change (w.met ++ new).Perm (w.visited ++ [current] ++ (new.reverse ++ rest))
  rw [hstack] at hsplit
  calc
    w.met ++ new
    _ ~ (w.visited ++ current :: rest) ++ new := hsplit.append_right new
    _ ~ (w.visited ++ current :: rest) ++ new.reverse := (reverse_perm new).symm.append_left _
    _ = (w.visited ++ [current]) ++ (rest ++ new.reverse) := by simp
    _ ~ (w.visited ++ [current]) ++ (new.reverse ++ rest) := perm_append_comm.append_left _

/-- One turn keeps the invariant. -/
theorem Invariant.visit (h : Invariant children start w) (hchildren : ∀ id, (children id).Nodup)
    (current : String) (rest : List String) (hstack : w.stack = current :: rest) :
    Invariant children start (w.visit children current rest) where
  nodup := by
    have hnew := (nodup_reverse.mpr (hchildren current)).filter (!w.met.contains ·)
    refine nodup_append'.mpr ⟨h.nodup, hnew, ?_⟩
    intro id hmet hnew
    simp [hmet] at hnew
  begins := by
    rw [Walk.visit, head?_append, h.begins, Option.some_or]
  split := split_visit w current rest hstack h.split
  reached := by
    intro id hid
    have hcurrent : current ∈ w.met := h.split.mem_iff.mpr (by simp [hstack])
    rcases (mem_met_visit w current rest id).mp hid with hmet | hchild
    · exact h.reached id hmet
    · exact (h.reached current hcurrent).tail hchild
  closed := by
    intro id hid child hchild
    rw [mem_met_visit]
    rcases mem_append.mp hid with hvisited | hnew
    · exact Or.inl (h.closed id hvisited child hchild)
    · rw [mem_singleton.mp hnew] at hchild
      exact Or.inr hchild

/-- Any number of turns keeps the invariant. -/
theorem Invariant.finish (h : Invariant children start w) (hchildren : ∀ id, (children id).Nodup)
    (fuel : ℕ) : Invariant children start (w.finish children fuel) := by
  induction fuel generalizing w with
  | zero => exact h
  | succ fuel ih =>
    rw [Walk.finish]
    split
    · exact h
    · next current rest hstack => exact ih _ (h.visit w hchildren current rest hstack)

/-- A walk with nothing left to visit stays as it is. -/
theorem finish_of_stack_nil (fuel : ℕ) (h : w.stack = []) : w.finish children fuel = w := by
  cases fuel with
  | zero => rfl
  | succ fuel => rw [Walk.finish, h]

/-- Turns can be taken in two goes. -/
theorem finish_add (first second : ℕ) :
    w.finish children (first + second) = (w.finish children first).finish children second := by
  induction first generalizing w with
  | zero => rw [Nat.zero_add, Walk.finish]
  | succ first ih =>
    cases hstack : w.stack with
    | nil => rw [finish_of_stack_nil w _ hstack, finish_of_stack_nil w _ hstack,
        finish_of_stack_nil w _ hstack]
    | cons current rest =>
      rw [Nat.succ_add_eq_add_succ, Nat.add_succ, Walk.finish, Walk.finish, hstack]
      exact ih _

/-- A walk never meets more components than can be reached. -/
theorem Invariant.length_met_le (h : Invariant children start w) (ids : List String)
    (hids : ∀ id, Reaches children start id → id ∈ ids) : w.met.length ≤ ids.length :=
  (subperm_of_subset h.nodup fun id hid => hids id (h.reached id hid)).length_le

/-- A walk with enough turns leaves nothing waiting. -/
theorem stack_finish (h : Invariant children start w) (hchildren : ∀ id, (children id).Nodup)
    (ids : List String) (hids : ∀ id, Reaches children start id → id ∈ ids) (fuel : ℕ)
    (hfuel : ids.length ≤ fuel + w.visited.length) : (w.finish children fuel).stack = [] := by
  induction fuel generalizing w with
  | zero =>
    -- As many components were visited as can be reached at all, so none waits.
    have hmet := h.length_met_le w ids hids
    have hsplit := h.split.length_eq
    rw [length_append] at hsplit
    apply eq_nil_of_length_eq_zero
    change w.stack.length = 0
    omega
  | succ fuel ih =>
    rw [Walk.finish]
    split
    · assumption
    · next current rest hstack =>
      apply ih _ (h.visit w hchildren current rest hstack)
      simp only [Walk.visit, length_append, length_singleton]
      omega

/-- A finished walk has met exactly what can be reached. -/
theorem Invariant.mem_met_iff (h : Invariant children start w) (hdone : w.stack = []) (id : String)
    : id ∈ w.met ↔ Reaches children start id := by
  refine ⟨h.reached id, ?_⟩
  intro hreach
  -- Along a path: with an empty stack a met component was visited, so its imports were met.
  induction hreach with
  | refl => exact mem_of_mem_head? h.begins
  | @tail current child _ hchild ih =>
    have hvisited : current ∈ w.visited := by
      simpa [hdone] using h.split.mem_iff.mp ih
    exact h.closed current hvisited child hchild

/-- A finished walk has visited exactly what can be reached. -/
theorem Invariant.mem_visited_iff (h : Invariant children start w) (hdone : w.stack = [])
    (id : String) : id ∈ w.visited ↔ Reaches children start id := by
  rw [← h.mem_met_iff w hdone, h.split.mem_iff, hdone, append_nil]

/-- What is met after the start is everything met except the start. -/
theorem Invariant.mem_drop_one (h : Invariant children start w) (id : String) :
    id ∈ w.met.drop 1 ↔ id ∈ w.met ∧ id ≠ start := by
  have hnodup := h.nodup
  have hbegins := h.begins
  cases hmet : w.met with
  | nil => simp
  | cons first later =>
    rw [hmet] at hnodup hbegins
    obtain rfl : first = start := by simpa using hbegins
    have hfresh := (nodup_cons.mp hnodup).1
    rw [drop_one, tail_cons, mem_cons]
    constructor
    · intro hid
      exact ⟨Or.inr hid, fun heq => hfresh (heq ▸ hid)⟩
    · rintro ⟨rfl | hid, hne⟩
      · exact absurd rfl hne
      · exact hid

end Walk

end SiteAtlas
