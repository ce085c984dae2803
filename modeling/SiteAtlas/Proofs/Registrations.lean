import SiteAtlas.Proofs.Lookup
import SiteAtlas.Proofs.Selecting
import Mathlib.Data.List.Dedup
import Mathlib.Data.List.Induction

/-!
# Indexes after any registrations

Whatever the calls were, an index is a function of the registrations in order. It answers with the
earliest in the first tier that has one, counts in each tier those that came too late for another
entity, and its size is the number of names.
-/

namespace SiteAtlas

open List

variable (key : String → String) (index : CandidateIndex)

/-- A new value adds its key unless the table has it. -/
theorem Keyed.map_fst_putNew {α : Type} (table : Keyed α) (key : String) (value : α) :
    (table.putNew key value).map (·.1) = Text.addUnique (table.map (·.1)) key := by
  unfold putNew
  by_cases hhas : table.has key = true
  · rw [if_pos hhas, addUnique_of_mem _ _ ((has_iff table key).mp hhas)]
  · rw [if_neg hhas, addUnique_of_not_mem _ _ fun hmem => hhas ((has_iff table key).mpr hmem),
      map_append]
    rfl

namespace CandidateIndex

/-- A call that adds registrations to an index. -/
inductive Call where
  /-- Register one entity under a name. -/
  | one (name id : String)
  /-- Register entities under names, in order. -/
  | many (entries : List (String × String))

/-- The registrations that a call asks for. -/
def Call.entries : Call → List (String × String)
  | .one name id => [(name, id)]
  | .many entries => entries

/-- The index after a call. -/
def after (index : CandidateIndex) : Call → CandidateIndex
  | .one name id => index.register name id
  | .many entries => index.registerAll entries

/-- The registrations of a row of calls that count: those under a name. -/
def registered (calls : List Call) : List (String × String) :=
  (calls.flatMap Call.entries).filter fun entry => !entry.1.isEmpty

/-- The number of registrations whose key stands for another entity. -/
def strays (key : String → String) (entries : List (String × String)) : Nat :=
  entries.countP fun entry => firstWith key entries (key entry.1) != some entry.2

/-- Registering in two goes is registering all at once. -/
theorem registerAll_append (entries more : List (String × String)) :
    index.registerAll (entries ++ more) = (index.registerAll entries).registerAll more :=
  foldl_append

/-- A call registers what it asks for. -/
theorem after_eq_registerAll (call : Call) : index.after call = index.registerAll call.entries := by
  cases call <;> rfl

/-- A row of calls registers what its calls ask for, in order. -/
theorem foldl_after_eq_registerAll (calls : List Call) :
    calls.foldl after index = index.registerAll (calls.flatMap Call.entries) := by
  induction calls generalizing index with
  | nil => rfl
  | cons call calls ih =>
    rw [foldl_cons, ih, after_eq_registerAll, flatMap_cons, registerAll_append]

/-- Registrations under no name leave no trace. -/
theorem registerAll_filter (entries : List (String × String)) :
    index.registerAll (entries.filter fun entry => !entry.1.isEmpty) =
      index.registerAll entries := by
  induction entries generalizing index with
  | nil => rfl
  | cons entry entries ih =>
    obtain ⟨name, id⟩ := entry
    by_cases hempty : name.isEmpty = true
    · have hsame : index.register name id = index := by
        unfold register
        rw [if_pos hempty]
      rw [filter_cons_of_neg (by simp [hempty]), ih]
      change index.registerAll entries = (index.register name id).registerAll entries
      rw [hsame]
    · rw [filter_cons_of_pos (by simp [hempty])]
      exact ih (index.register name id)

/-- After any calls the index is that of the registrations that count. -/
theorem foldl_after_empty (calls : List Call) :
    calls.foldl after {} = ({} : CandidateIndex).registerAll (registered calls) := by
  rw [foldl_after_eq_registerAll, registered, registerAll_filter]

/-- A registration under a name is found under its key. -/
theorem isSome_firstWith (entries : List (String × String)) (entry : String × String)
    (hmem : entry ∈ entries) (hname : entry.1.isEmpty = false) :
    (firstWith key entries (key entry.1)).isSome = true := by
  rw [firstWith, Option.isSome_map, find?_isSome]
  exact ⟨entry, hmem, by simp [hname]⟩

/-- A registration is found only under a key that has none before. -/
theorem firstWith_append_singleton (entries : List (String × String)) (name id : String)
    (hname : name.isEmpty = false) (wanted : String) :
    firstWith key (entries ++ [(name, id)]) wanted =
      (firstWith key entries wanted).or (if key name = wanted then some id else none) := by
  unfold firstWith
  rw [find?_append, Option.map_or]
  congr 1
  by_cases hkey : key name = wanted <;> simp [hname, hkey]

/-- A registration strays if its key has another entity already. -/
theorem strays_append_singleton (entries : List (String × String))
    (hentries : ∀ entry ∈ entries, entry.1.isEmpty = false) (name id : String)
    (hname : name.isEmpty = false) : strays key (entries ++ [(name, id)]) = strays key entries +
      (((firstWith key entries (key name)).map (· != id)).getD false).toNat := by
  -- What was registered before keeps its first registration, so only the last one is to be judged.
  have hbefore : entries.countP (fun entry =>
      firstWith key (entries ++ [(name, id)]) (key entry.1) != some entry.2) =
        strays key entries := by
    apply countP_congr
    intro entry hmem
    obtain ⟨first, hfirst⟩ := Option.isSome_iff_exists.mp
      (isSome_firstWith key entries entry hmem (hentries entry hmem))
    rw [firstWith_append_singleton key entries name id hname, hfirst, Option.some_or]
  unfold strays at hbefore ⊢
  rw [countP_append, hbefore, countP_singleton,
    firstWith_append_singleton key entries name id hname, if_pos rfl]
  cases firstWith key entries (key name) with
  | none => simp
  | some first =>
    by_cases hid : first = id
    · simp [hid]
    · rw [Option.map_some, Option.getD_some, bne_iff_ne.mpr hid]
      simp [hid]

/-- A registration clashes with a tier by the earliest one of its key. -/
theorem clashes_registerAll (tier : CandidateIndex → Keyed String) (key : String → String)
    (hempty : tier {} = []) (hstep : ∀ index name id, tier (index.register name id) =
      if name.isEmpty then tier index else (tier index).putNew (key name) id)
    (entries : List (String × String)) (name id : String) :
    clashes (tier (({} : CandidateIndex).registerAll entries)) (key name) id =
      ((firstWith key entries (key name)).map (· != id)).getD false := by
  rw [clashes, get?_registerAll tier key hstep, hempty, Keyed.get?_nil, Option.none_or]

/-- Registering counts one collision for each tier it clashes with. -/
theorem collisions_register (name id : String) (hname : name.isEmpty = false) :
    (index.register name id).collisions = index.collisions + (clashes index.exact name id).toNat +
      (clashes index.lowered (Text.lowerString name) id).toNat +
      (clashes index.normalized (normalizeKey name) id).toNat := by
  unfold register
  rw [if_neg (by simp [hname])]

/-- An index counts registrations whose key means another entity. -/
theorem collisions_registerAll (entries : List (String × String))
    (hentries : ∀ entry ∈ entries, entry.1.isEmpty = false) :
    (({} : CandidateIndex).registerAll entries).collisions =
      strays id entries + strays Text.lowerString entries + strays normalizeKey entries := by
  induction entries using List.reverseRecOn with
  | nil => rfl
  | append_singleton entries entry ih =>
    obtain ⟨name, entity⟩ := entry
    have hname : name.isEmpty = false := hentries (name, entity) (by simp)
    have hbefore : ∀ entry ∈ entries, entry.1.isEmpty = false := by
      intro entry hmem
      exact hentries entry (mem_append_left _ hmem)
    have hlast : ({} : CandidateIndex).registerAll (entries ++ [(name, entity)]) =
        (({} : CandidateIndex).registerAll entries).register name entity :=
      registerAll_append {} entries [(name, entity)]
    have hexact : clashes (({} : CandidateIndex).registerAll entries).exact name entity = _ :=
      clashes_registerAll exact id rfl register_exact entries name entity
    have hlowered := clashes_registerAll lowered _ rfl register_lowered entries name entity
    have hnormalized := clashes_registerAll normalized _ rfl register_normalized entries name entity
    rw [hlast, collisions_register _ name entity hname, ih hbefore, hexact, hlowered, hnormalized]
    simp only [strays_append_singleton _ entries hbefore name entity hname]
    omega

/-- A tier keeps each key once, in order of first arrival. -/
theorem map_fst_registerAll (tier : CandidateIndex → Keyed String) (key : String → String)
    (hstep : ∀ index name id, tier (index.register name id) =
      if name.isEmpty then tier index else (tier index).putNew (key name) id)
    (index : CandidateIndex) (entries : List (String × String))
    (hentries : ∀ entry ∈ entries, entry.1.isEmpty = false) :
    (tier (index.registerAll entries)).map (·.1) =
      (entries.map fun entry => key entry.1).foldl Text.addUnique ((tier index).map (·.1)) := by
  induction entries generalizing index with
  | nil => rfl
  | cons entry entries ih =>
    obtain ⟨name, id⟩ := entry
    have hname : name.isEmpty = false := hentries (name, id) mem_cons_self
    have hrest : ∀ entry ∈ entries, entry.1.isEmpty = false := by
      intro entry hmem
      exact hentries entry (mem_cons_of_mem _ hmem)
    change (tier ((index.register name id).registerAll entries)).map (·.1) = _
    rw [ih (index.register name id) hrest, hstep, if_neg (by simp [hname]), map_cons,
      foldl_cons, Keyed.map_fst_putNew]

/-- The size of an index is the number of distinct names. -/
theorem size_registerAll (entries : List (String × String))
    (hentries : ∀ entry ∈ entries, entry.1.isEmpty = false) :
    (({} : CandidateIndex).registerAll entries).size = (entries.map (·.1)).dedup.length := by
  have hnames : (({} : CandidateIndex).registerAll entries).exact.map (·.1) =
      Text.unique (entries.map (·.1)) :=
    map_fst_registerAll exact _ register_exact {} entries hentries
  have hperm : (Text.unique (entries.map (·.1))).Perm (entries.map (·.1)).dedup := by
    apply (perm_ext_iff_of_nodup (nodup_unique _) (nodup_dedup _)).mpr
    intro name
    rw [mem_unique, mem_dedup]
  rw [size, ← hperm.length_eq, ← hnames, length_map]

/-- After any calls an index answers a name with the earliest registration of the name, failing that
of its lower-case form, and failing that of its normalized form; it has counted in each tier the
registrations for another entity than the earliest of their key, and its size is the number of
distinct names. -/
theorem after_calls (calls : List Call) : (∀ name, (calls.foldl after {}).lookup name =
      ((firstWith id (registered calls) name).or
        (firstWith Text.lowerString (registered calls) (Text.lowerString name))).or
          (firstWith normalizeKey (registered calls) (normalizeKey name))) ∧
    (calls.foldl after {}).collisions =
      strays id (registered calls) + strays Text.lowerString (registered calls) +
        strays normalizeKey (registered calls) ∧
    (calls.foldl after {}).size = ((registered calls).map (·.1)).dedup.length := by
  have hnamed : ∀ entry ∈ registered calls, entry.1.isEmpty = false := by
    intro entry hmem
    simpa using List.of_mem_filter hmem
  rw [foldl_after_empty]
  exact ⟨lookup_registerAll (registered calls), collisions_registerAll _ hnamed,
    size_registerAll _ hnamed⟩

end CandidateIndex

end SiteAtlas
