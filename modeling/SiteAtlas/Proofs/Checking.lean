import Mathlib.Data.List.Forall2

/-!
# Computations that may fail

A computation is described by a condition on its result and one on its failure. Computations in a
row are described by what the first leaves to the second, without asking each time whether it
failed.
-/

namespace SiteAtlas

open List

variable {α β ε : Type}

/-- A computation has a result of one kind or a failure of another. -/
inductive Ends (good : α → Prop) (bad : ε → Prop) : Except ε α → Prop
  | ok {a : α} (h : good a) : Ends good bad (.ok a)
  | error {e : ε} (h : bad e) : Ends good bad (.error e)

namespace Ends

variable {good : α → Prop} {after : β → Prop} {bad : ε → Prop} {x : Except ε α}

/-- The result of a computation that ends with one. -/
theorem of_ok {a : α} (h : Ends good bad (.ok a)) : good a := by
  cases h with
  | ok h => exact h

/-- The failure of a computation that ends with one. -/
theorem of_error {e : ε} (h : Ends good bad (.error e : Except ε α)) : bad e := by
  cases h with
  | error h => exact h

/-- A computation that is followed by another one. -/
theorem bind {f : α → Except ε β} (h : Ends good bad x)
    (hnext : ∀ a, good a → Ends after bad (f a)) : Ends after bad (x >>= f) := by
  cases h with
  | ok h => exact hnext _ h
  | error h => exact .error h

/-- A computation whose result is changed. -/
theorem map {f : α → β} (h : Ends good bad x) (hnext : ∀ a, good a → after (f a)) :
    Ends after bad (x.map f) := by
  cases h with
  | ok h => exact .ok (hnext _ h)
  | error h => exact .error h

/-- A computation whose failure is told in another way. -/
theorem mapError {ε' : Type} {bad' : ε' → Prop} {f : ε → ε'} (h : Ends good bad x)
    (hbad : ∀ e, bad e → bad' (f e)) : Ends good bad' (x.mapError f) := by
  cases h with
  | ok h => exact .ok h
  | error h => exact .error (hbad _ h)

/-- What is known about a computation can be weakened. -/
theorem imp {good' : α → Prop} {bad' : ε → Prop} (h : Ends good bad x)
    (hgood : ∀ a, good a → good' a) (hbad : ∀ e, bad e → bad' e) : Ends good' bad' x := by
  cases h with
  | ok h => exact .ok (hgood _ h)
  | error h => exact .error (hbad _ h)

/-- A computation that fails for known reasons returns if there are none. -/
theorem returns_iff (h : Ends (fun _ => ∀ e, ¬ bad e) bad x) : (∃ a, x = .ok a) ↔ ∀ e, ¬ bad e := by
  cases h with
  | ok h => simp [h]
  | error h => simpa using ⟨_, h⟩

end Ends

/-- A computation with a result went through its first step. -/
theorem exists_of_bind_eq_ok {x : Except ε α} {f : α → Except ε β} {b : β}
    (h : x >>= f = .ok b) : ∃ a, x = .ok a ∧ f a = .ok b := by
  cases x with
  | error e => cases h
  | ok a => exact ⟨a, rfl, h⟩

/-- A computation with a result had no reason to fail. -/
theorem of_guarded_eq_ok {stop : Bool} {e : ε} {x : Except ε α} {a : α}
    (h : (do
      if stop then throw e
      x) = .ok a) : stop = false ∧ x = .ok a := by
  cases stop with
  | true => cases h
  | false => exact ⟨rfl, h⟩

/-- A result is the same however a failure is told. -/
theorem eq_ok_of_mapError {ε' : Type} {x : Except ε α} {f : ε → ε'} {a : α}
    (h : x.mapError f = .ok a) : x = .ok a := by
  cases x with
  | error e => cases h
  | ok b => exact congrArg Except.ok (Except.ok.inj h)

/-- A row of computations gives all results, or one failure. -/
theorem ends_mapM (f : α → Except ε β) (items : List α) :
    Ends (List.Forall₂ (fun a b => f a = .ok b) items) (fun e => ∃ a ∈ items, f a = .error e)
      (items.mapM f) := by
  induction items with
  | nil => exact .ok .nil
  | cons a rest ih =>
    rw [mapM_cons]
    cases ha : f a with
    | error e => exact .error ⟨a, mem_cons_self, ha⟩
    | ok b =>
      have hrest : Ends (List.Forall₂ (fun a b => f a = .ok b) rest)
          (fun e => ∃ x ∈ a :: rest, f x = .error e) (rest.mapM f) := by
        refine ih.imp (fun _ h => h) ?_
        rintro e ⟨x, hx, he⟩
        exact ⟨x, mem_cons_of_mem a hx, he⟩
      exact hrest.bind fun others hothers => .ok (.cons ha hothers)

/-- An item of a row related to another is related to something. -/
theorem exists_of_mem_forall₂ {related : α → β → Prop} {items : List α} {others : List β}
    (h : List.Forall₂ related items others) (a : α) (ha : a ∈ items) : ∃ b, related a b := by
  have hall := h.imp fun a b hab => And.intro (Exists.intro b hab) hab
  exact ((forall₂_and_left _ _).mp hall).1 a ha

/-- On the way through a row, an item stops after others passed. -/
inductive StopsAt (passed stops : α → Prop) : List α → Prop
  | here {a : α} {rest : List α} (h : stops a) : StopsAt passed stops (a :: rest)
  | later {a : α} {rest : List α} (ha : passed a) (h : StopsAt passed stops rest) :
    StopsAt passed stops (a :: rest)

/-- A search finds what a computation gives, or fails where one does. -/
theorem ends_findSomeM? {γ : Type} (x : α → Except ε γ) (give? : α → γ → Option β)
    (items : List α) :
    Ends (fun found => (∀ b ∈ found, ∃ a ∈ items, ∃ c, x a = .ok c ∧ give? a c = some b) ∧
        ∀ e, ¬ StopsAt (fun a => ∃ c, x a = .ok c ∧ give? a c = none) (x · = .error e) items)
      (fun e => StopsAt (fun a => ∃ c, x a = .ok c ∧ give? a c = none) (x · = .error e) items)
      (items.findSomeM? fun a => do return give? a (← x a)) := by
  induction items with
  | nil =>
    refine .ok ⟨fun b hb => ?_, fun e he => ?_⟩
    · cases hb
    · cases he
  | cons a rest ih =>
    rw [List.findSomeM?]
    cases ha : x a with
    | error e => exact .error (.here ha)
    | ok c =>
      cases hc : give? a c with
      | some b =>
        simp only [bind, Except.bind, pure, Except.pure, hc]
        refine .ok ⟨fun other hother => ?_, fun e he => ?_⟩
        · obtain rfl := Option.some.inj hother
          exact ⟨a, mem_cons_self, c, ha, hc⟩
        · rcases he with hstops | ⟨⟨d, hd, hpassed⟩, -⟩
          · cases ha.symm.trans hstops
          · obtain rfl := Except.ok.inj (ha.symm.trans hd)
            cases hc.symm.trans hpassed
      | none =>
        simp only [bind, Except.bind, pure, Except.pure, hc]
        refine ih.imp (fun found hfound => ⟨fun b hb => ?_, fun e he => ?_⟩) ?_
        · obtain ⟨d, hd, hb⟩ := hfound.1 b hb
          exact ⟨d, mem_cons_of_mem a hd, hb⟩
        · rcases he with hstops | ⟨-, hlater⟩
          · cases ha.symm.trans hstops
          · exact hfound.2 e hlater
        · exact fun e he => .later ⟨c, ha, hc⟩ he

/-- A search by a test finds a passing item, or fails where the test does. -/
theorem ends_findM? (test : α → Except ε Bool) (items : List α) :
    Ends (fun found => (∀ a ∈ found, a ∈ items ∧ test a = .ok true) ∧
        ∀ e, ¬ StopsAt (test · = .ok false) (test · = .error e) items)
      (fun e => StopsAt (test · = .ok false) (test · = .error e) items) (items.findM? test) := by
  have hsearch := ends_findSomeM? test (fun a holds => if holds then some a else none) items
  rw [findM?_eq_findSomeM?]
  simpa using hsearch

end SiteAtlas
