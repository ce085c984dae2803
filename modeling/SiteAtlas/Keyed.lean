/-!
# Keyed lists

A keyed list maps texts to values and remembers the order of its keys. Writing to a key that is
present keeps its place.
-/

namespace SiteAtlas

/-- Values by key, in order of each key's first arrival. -/
abbrev Keyed (α : Type) := List (String × α)

namespace Keyed

variable {α : Type}

/-- The value of a key. -/
def get? (table : Keyed α) (key : String) : Option α :=
  List.lookup key table

/-- Whether a key is present. -/
def has (table : Keyed α) (key : String) : Bool :=
  (table.get? key).isSome

/-- Give a key a value, in its old place or else at the end. -/
def put : Keyed α → String → α → Keyed α
  | [], key, value => [(key, value)]
  | (k, v) :: rest, key, value =>
    if k = key then (k, value) :: rest else (k, v) :: put rest key value

/-- Write to a key unless it is present. -/
def putNew (table : Keyed α) (key : String) (value : α) : Keyed α :=
  if table.has key then table else table ++ [(key, value)]

/-- An empty list has no keys. -/
@[simp] theorem get?_nil (key : String) : get? ([] : Keyed α) key = none := rfl

/-- The first entry decides. -/
theorem get?_cons (k key : String) (v : α) (rest : Keyed α) :
    get? ((k, v) :: rest : List (String × α)) key = if key == k then some v else get? rest key := by
  unfold get?
  rw [List.lookup_cons]
  split <;> simp_all

/-- The written key has the new value, the others keep theirs. -/
theorem get?_put (table : Keyed α) (key : String) (value : α) (other : String) :
    (put table key value).get? other = if other == key then some value else get? table other := by
  induction table with
  | nil => simp [put, get?_cons]
  | cons entry rest ih =>
    obtain ⟨k, v⟩ := entry
    unfold put
    split
    · rename_i h
      subst h
      simp only [get?_cons]
      split <;> simp_all
    · rename_i h
      simp only [get?_cons, ih]
      split
      · rename_i hk
        have hk' : other = k := by simpa using hk
        subst hk'
        simp [h]
      · rfl

end Keyed

end SiteAtlas
