import SiteAtlas.Proofs.ActionImports
import SiteAtlas.Proofs.Registrations

/-!
# The file that an alias leads to

Each alias that matches a specifier gives a row of candidates, and all stand in one order: longer
keys first, then earlier directories, then earlier suffixes. The search gives the first that is a
file, unless a path that is too long comes before.

Aliases are said key by key: the last declared list counts, and two keys always have one. Keys that
match one specifier differ in length, so the order of keys of one length never matters.
-/

namespace SiteAtlas

open List

open SiteAtlas.Data (Value)

section Searching

variable {α β ε : Type}

/-- A way stops at the first item or passes it. -/
theorem stopsAt_cons {passed stops : α → Prop} {a : α} {rest : List α} :
    StopsAt passed stops (a :: rest) ↔ stops a ∨ passed a ∧ StopsAt passed stops rest := by
  constructor
  · rintro (hstops | ⟨hpassed, hlater⟩)
    · exact .inl hstops
    · exact .inr ⟨hpassed, hlater⟩
  · rintro (hstops | ⟨hpassed, hlater⟩)
    · exact .here hstops
    · exact .later hpassed hlater

/-- Where a way stops is told by any order of the row. -/
theorem StopsAt.iff_of_pairwise {passed stops : α → Prop} {before : α → α → Prop} {items : List α}
    (hasymm : ∀ a b, before a b → ¬ before b a) (h : items.Pairwise before) :
    StopsAt passed stops items ↔ ∃ a ∈ items, stops a ∧ ∀ b ∈ items, before b a → passed b := by
  induction h with
  | nil =>
    constructor
    · intro h
      cases h
    · rintro ⟨a, ha, -⟩
      cases ha
  | @cons first rest hfirst _ ih =>
    rw [stopsAt_cons]
    constructor
    · rintro (hstops | ⟨hpassed, hlater⟩)
      · refine ⟨first, mem_cons_self, hstops, fun b hb hbefore => ?_⟩
        rcases mem_cons.mp hb with rfl | hb
        · exact absurd hbefore (hasymm _ _ hbefore)
        · exact absurd hbefore (hasymm _ _ (hfirst b hb))
      · obtain ⟨a, ha, hstops, hall⟩ := ih.mp hlater
        exact ⟨a, mem_cons_of_mem _ ha, hstops, forall_mem_cons.mpr ⟨fun _ => hpassed, hall⟩⟩
    · rintro ⟨a, ha, hstops, hall⟩
      obtain ⟨hhead, hrest⟩ := forall_mem_cons.mp hall
      rcases mem_cons.mp ha with rfl | ha
      · exact .inl hstops
      · exact .inr ⟨hhead (hfirst a ha), ih.mpr ⟨a, ha, hstops, hrest⟩⟩

variable (test : α → Except ε Bool)

/-- The first item is found, is passed, or ends the search. -/
theorem findM?_cons (a : α) (rest : List α) : (a :: rest).findM? test =
      test a >>= fun holds => if holds then .ok (some a) else rest.findM? test := by
  rw [List.findM?]
  rcases test a with e | (_ | _) <;> rfl

/-- A search finds the item where it stops. -/
theorem findM?_eq_some_iff (items : List α) (a : α) : items.findM? test = .ok (some a) ↔
      StopsAt (test · = .ok false) (fun b => b = a ∧ test b = .ok true) items := by
  induction items with
  | nil => exact iff_of_false (by simp [pure, Except.pure]) (by rintro ⟨⟩)
  | cons first rest ih =>
    rw [findM?_cons, stopsAt_cons]
    rcases test first with e | (_ | _) <;> simp [bind, Except.bind, ih]

/-- A search finds nothing if no item passes the test. -/
theorem findM?_eq_none_iff (items : List α) :
    items.findM? test = .ok none ↔ ∀ a ∈ items, test a = .ok false := by
  induction items with
  | nil => exact iff_of_true rfl (by simp)
  | cons first rest ih =>
    rw [findM?_cons, forall_mem_cons]
    rcases test first with e | (_ | _) <;> simp [bind, Except.bind, ih]

/-- A search fails where the test does first. -/
theorem findM?_eq_error_iff (items : List α) (e : ε) :
    items.findM? test = .error e ↔ StopsAt (test · = .ok false) (test · = .error e) items := by
  induction items with
  | nil => exact iff_of_false (by simp [pure, Except.pure]) (by rintro ⟨⟩)
  | cons first rest ih =>
    rw [findM?_cons, stopsAt_cons]
    rcases test first with e | (_ | _) <;> simp [bind, Except.bind, ih]

/-- Searching rows in turn is searching one row. -/
theorem findSomeM?_findM? (row : β → List α) (items : List β) :
    (items.findSomeM? fun b => (row b).findM? test) = (items.flatMap row).findM? test := by
  have happend (left right : List α) : (left ++ right).findM? test =
      left.findM? test >>= fun found => found.elim (right.findM? test) fun a => .ok (some a) := by
    induction left with
    | nil => rfl
    | cons a left ih =>
      rw [cons_append, findM?_cons, findM?_cons, ih]
      rcases test a with e | (_ | _) <;> rfl
  induction items with
  | nil => rfl
  | cons b items ih =>
    rw [flatMap_cons, happend, ← ih, List.findSomeM?]
    rcases (row b).findM? test with e | (_ | _) <;> rfl

end Searching

/-- With distinct keys, entries are what keys have as values. -/
theorem Keyed.mem_iff_get? {α : Type} {table : Keyed α} (h : (table.map (·.1)).Nodup)
    (key : String) (value : α) : (key, value) ∈ table ↔ table.get? key = some value := by
  induction table with
  | nil => simp
  | cons entry rest ih =>
    obtain ⟨k, v⟩ := entry
    rw [map_cons, nodup_cons] at h
    rw [mem_cons, get?_cons, ih h.2, Prod.mk.injEq]
    by_cases hkey : key = k
    · subst hkey
      have hnone : get? rest key = none := by
        rw [← Option.not_isSome_iff_eq_none]
        exact fun hhas => h.1 ((has_iff rest key).mp hhas)
      simp [hnone, eq_comm]
    · simp [hkey]

namespace AliasTable

/-- The alias of a declared entry, if it lists targets. -/
def entryAlias? [Host] (root base : String) : String × Value → Option Alias
  | (pattern, .list targets) =>
    some ⟨keyOf pattern, ⟨!endsWithStar pattern, targets.map (targetDirectory root base)⟩⟩
  | _ => none

/-- The declared aliases, in the order of entries. -/
def declaredAliases [Host] (root : String) (options : Keyed Value) : List Alias :=
  (declaredPaths options).filterMap (entryAlias? root (baseDirectory options))

/-- The alias of a key: the last declared, or the default. -/
def aliasFor? [Host] (root : String) (options : Keyed Value) (key : String) : Option Alias :=
  (lastWith? Alias.key (declaredAliases root options) key).or
    (if key ∈ defaultKeys then some ⟨key, defaultTarget root⟩ else none)

/-- What a table of aliases holds for compiler options. -/
structure Represents [Host] (table : AliasTable) (root : String) (options : Keyed Value) :
    Prop where
  /-- No two aliases have the same key. -/
  nodup : (table.aliases.map Alias.key).Nodup
  /-- The alias of a key is the last declared, or the default. -/
  mem_iff : ∀ al, al ∈ table.aliases ↔ aliasFor? root options al.key = some al
  /-- The default keys have an alias. -/
  defaults : ∀ key ∈ defaultKeys, key ∈ table.aliases.map Alias.key
  /-- Longer keys come first. -/
  sorted : table.aliases.Pairwise fun a b => b.key.length ≤ a.key.length

section Entries

variable (root : String) (options : Keyed Value)

/-- Declared aliases are written into a table one by one. -/
theorem declared_eq_foldl [Host] : declared root (baseDirectory options) (declaredPaths options) =
      (declaredAliases root options).foldl
        (fun (table : Keyed AliasTarget) al => table.put al.key al.target) [] := by
  rw [declared, declaredAliases, foldl_filterMap]
  congr 1
  funext table entry
  obtain ⟨pattern, _ | _ | _ | _ | _ | _ | _⟩ := entry <;> rfl

/-- The entries that are sorted into the table of aliases. -/
def entries [Host] : Keyed AliasTarget :=
  withDefaults root (declared root (baseDirectory options) (declaredPaths options))

/-- A key has as its value the target of its alias. -/
theorem get?_entries [Host] (key : String) :
    (entries root options).get? key = (aliasFor? root options key).map (·.target) := by
  rw [entries, declared_eq_foldl]
  simp only [withDefaults, defaultKeys, foldl_cons, foldl_nil, Keyed.get?_putNew,
    get?_foldl_put, Keyed.get?_nil, Option.or_none, aliasFor?]
  cases lastWith? Alias.key (declaredAliases root options) key with
  | some al => rfl
  | none =>
    by_cases hat : key = "@/"
    · simp [hat]
    · by_cases htilde : key = "~/"
      · simp [htilde]
      · simp [hat, htilde, Ne.symm hat, Ne.symm htilde]

/-- The entries have distinct keys. -/
theorem nodup_entries [Host] : ((entries root options).map (·.1)).Nodup := by
  simp only [entries, declared_eq_foldl, withDefaults, defaultKeys, foldl_cons, foldl_nil,
    Keyed.map_fst_putNew]
  exact nodup_addUnique _ _ (nodup_addUnique _ _ (Keyed.nodup_foldl_put _ _ _ _ nodup_nil))

variable {root options}

/-- An alias has the key it was made for. -/
theorem key_of_aliasFor? [Host] {key : String} {al : Alias}
    (h : aliasFor? root options key = some al) : al.key = key := by
  rcases Option.or_eq_some_iff.mp h with hlast | ⟨-, hdefault⟩
  · exact (mem_of_lastWith? _ _ _ _ hlast).2
  · split at hdefault
    · rw [← Option.some.inj hdefault]
    · cases hdefault

/-- An alias of the table is the alias of its key. -/
theorem mem_entries_iff [Host] (al : Alias) :
    (al.key, al.target) ∈ entries root options ↔ aliasFor? root options al.key = some al := by
  rw [Keyed.mem_iff_get? (nodup_entries root options), get?_entries, Option.map_eq_some_iff]
  constructor
  · rintro ⟨other, hother, htarget⟩
    have hkey := key_of_aliasFor? hother
    obtain ⟨key, target⟩ := other
    subst hkey htarget
    exact hother
  · exact fun h => ⟨al, h, rfl⟩

end Entries

/-- A table represents its configuration. -/
theorem represents_ofConfig [Host] (root : Path) (found : Option (Path × Value)) :
    (ofConfig root found).Represents root.toString (options found) := by
  have hperm : (ofConfig root found).aliases.Perm
      ((entries root.toString (options found)).map fun entry => ⟨entry.1, entry.2⟩) :=
    mergeSort_perm _ _
  have hkeys : ((entries root.toString (options found)).map
      fun entry => (⟨entry.1, entry.2⟩ : Alias)).map Alias.key =
        (entries root.toString (options found)).map (·.1) := by
    rw [map_map]
    rfl
  have hmem (al : Alias) : al ∈ (ofConfig root found).aliases ↔
      aliasFor? root.toString (options found) al.key = some al := by
    rw [hperm.mem_iff, ← mem_entries_iff, mem_map]
    constructor
    · rintro ⟨⟨key, target⟩, hentry, rfl⟩
      exact hentry
    · exact fun h => ⟨_, h, rfl⟩
  refine ⟨?_, hmem, fun key hkey => ?_, ?_⟩
  · rw [(hperm.map _).nodup_iff, hkeys]
    exact nodup_entries _ _
  · cases hal : aliasFor? root.toString (options found) key with
    | none => simp [aliasFor?, hkey] at hal
    | some al =>
      have hkey := key_of_aliasFor? hal
      exact mem_map.mpr ⟨al, (hmem al).mpr (by rw [hkey, hal]), hkey⟩
  · exact pairwise_ofConfig root found

/-- A configuration that is missing, no text or malformed. -/
def IsUnusable [Host] (tree : Tree) (file : Path) : Prop :=
  ∀ content, tree.readText? file = some content →
    Data.Json.read Host.configRoom (Data.Json.strip content) = .error .malformed

/-- A configuration holds a value, once stripped. -/
def Holds [Host] (tree : Tree) (file : Path) (value : Value) : Prop :=
  ∃ content, tree.readText? file = some content ∧
    Data.Json.read Host.configRoom (Data.Json.strip content) = .ok value

/-- The configuration is in the first usable file. -/
inductive Configures [Host] (tree : Tree) (root : Path) : Option (Path × Value) → Prop
  | nothing (h : ∀ name ∈ configFiles, IsUnusable tree (root / name)) : Configures tree root none
  | first {before after : List String} {name : String} {value : Value}
    (hfiles : configFiles = before ++ name :: after)
    (hbefore : ∀ earlier ∈ before, IsUnusable tree (root / earlier))
    (h : Holds tree (root / name) value) : Configures tree root (some (root / name, value))

/-- A configuration file that gives nothing cannot be used. -/
theorem isUnusable_of_readConfig [Host] {tree : Tree} {file : Path}
    (h : readConfig tree file = .ok none) : IsUnusable tree file := by
  intro content hcontent
  rcases of_readConfig_eq_ok h with ⟨hnone, -⟩ | ⟨found, hfound, hread⟩
  · cases hnone.symm.trans hcontent
  · obtain rfl := Option.some.inj (hcontent.symm.trans hfound)
    unfold Data.Json.readIfWellFormed at hread
    split at hread
    · cases hread
    next hmalformed => exact hmalformed
    · cases hread

/-- A configuration file that gives a value holds it. -/
theorem holds_of_readConfig [Host] {tree : Tree} {file : Path} {value : Value}
    (h : readConfig tree file = .ok (some value)) : Holds tree file value := by
  rcases of_readConfig_eq_ok h with ⟨-, hnone⟩ | ⟨content, hcontent, hread⟩
  · cases hnone
  · refine ⟨content, hcontent, ?_⟩
    unfold Data.Json.readIfWellFormed at hread
    split at hread
    next hvalue => rw [hvalue, Option.some.inj (Except.ok.inj hread)]
    · cases hread
    · cases hread

/-- The found configuration is in the first usable file. -/
theorem configures_of_config [Host] {tree : Tree} {root : Path} {found : Option (Path × Value)}
    (h : config tree root = .ok found) : Configures tree root found := by
  -- The search goes on with the names that are left when all before could not be used.
  suffices hsearch : ∀ names before, configFiles = before ++ names →
      (∀ earlier ∈ before, IsUnusable tree (root / earlier)) →
      (names.findSomeM? fun name => do
        return (← readConfig tree (root / name)).map (root / name, ·)) = .ok found →
      Configures tree root found from
    hsearch configFiles [] rfl (by simp) h
  intro names
  induction names with
  | nil =>
    intro before hfiles hbefore hfound
    cases hfound
    exact .nothing fun name hname => hbefore name (by simpa [hfiles] using hname)
  | cons name names ih =>
    intro before hfiles hbefore hfound
    rw [List.findSomeM?] at hfound
    rcases hread : readConfig tree (root / name) with e | (_ | value)
    all_goals simp only [hread, bind, Except.bind, pure, Except.pure, Option.map_none,
      Option.map_some] at hfound
    · cases hfound
    · refine ih (before ++ [name]) (by simp [hfiles]) ?_ hfound
      intro earlier hearlier
      rcases mem_append.mp hearlier with hearlier | hearlier
      · exact hbefore earlier hearlier
      · rw [mem_singleton.mp hearlier]
        exact isUnusable_of_readConfig hread
    · cases hfound
      exact .first hfiles hbefore (holds_of_readConfig hread)

/-- What an alias leaves of a specifier: nothing, or what follows the key. -/
inductive Leaves (al : Alias) : List Char → List Char → Prop
  | whole (h : al.target.exact = true) : Leaves al al.key.toList []
  | beginning (h : al.target.exact = false) (rest : List Char) :
    Leaves al (al.key.toList ++ rest) rest

/-- Where a candidate comes from: alias, directory and suffix. -/
structure Candidate where
  al : Alias
  directory : Nat
  suffix : Nat

/-- The place of a directory for what is left. -/
def placeIn (dir : String) (rest : List Char) : List Char :=
  if rest = [] then dir.toList else joinNormal dir.toList rest

/-- A candidate of a specifier is at a path. -/
inductive IsCandidate (table : AliasTable) (specifier : List Char) : Candidate → Path → Prop
  | intro {c : Candidate} {rest : List Char} {dir suffix : String}
    (hal : c.al ∈ table.aliases) (hleaves : Leaves c.al specifier rest)
    (hdir : c.al.target.directories[c.directory]? = some dir)
    (hsuffix : probeSuffixes[c.suffix]? = some suffix) :
    IsCandidate table specifier c (.ofString (String.ofList (placeIn dir rest ++ suffix.toList)))

/-- One candidate comes before another: by key, directory and suffix. -/
inductive Precedes (keys : List String) : Candidate → Candidate → Prop
  | longerKey {a b : Candidate} (h : b.al.key.length < a.al.key.length) : Precedes keys a b
  | earlierKey {a b : Candidate} (hlength : a.al.key.length = b.al.key.length)
    (h : keys.idxOf a.al.key < keys.idxOf b.al.key) : Precedes keys a b
  | earlierDirectory {a b : Candidate} (hkey : a.al.key = b.al.key)
    (h : a.directory < b.directory) : Precedes keys a b
  | earlierSuffix {a b : Candidate} (hkey : a.al.key = b.al.key)
    (hdir : a.directory = b.directory) (h : a.suffix < b.suffix) : Precedes keys a b

/-- Of two candidates only one comes before the other. -/
theorem Precedes.asymm {keys : List String} {a b : Candidate} (h : Precedes keys a b) :
    ¬ Precedes keys b a := by
  rintro (h' | ⟨hlength', h'⟩ | ⟨hkey', h'⟩ | ⟨hkey', hdirectory', h'⟩) <;>
    rcases h with h | ⟨hlength, h⟩ | ⟨hkey, h⟩ | ⟨hkey, hdir, h⟩ <;>
    first | omega | simp_all

/-- The keys in the order of first appearance. -/
def keysInOrder (options : Keyed Value) : List String :=
  (declaredPaths options).map (keyOf ·.1) ++ defaultKeys

/-- What is left of a specifier is what the alias leaves. -/
theorem remainder?_eq_some_iff (al : Alias) (specifier rest : List Char) :
    remainder? al specifier = some rest ↔ Leaves al specifier rest := by
  unfold remainder?
  constructor
  · intro h
    split at h
    next hexact =>
      split at h
      next heq =>
        cases h
        rw [heq]
        exact .whole hexact
      · cases h
    next hopen =>
      split at h
      next hbegins =>
        obtain ⟨more, rfl⟩ := List.isPrefixOf_iff_prefix.mp hbegins
        rw [← String.length_toList, drop_left] at h
        cases h
        exact .beginning (by simpa using hopen) _
      · cases h
  · rintro (hexact | ⟨hopen⟩)
    · simp [hexact]
    · simp [hopen, String.length_toList]

/-- A key begins every specifier that it matches. -/
theorem Leaves.begins {al : Alias} {specifier rest : List Char} (h : Leaves al specifier rest) :
    al.key.toList <+: specifier := by
  cases h with
  | whole => exact prefix_refl _
  | beginning => exact prefix_append _ _

/-- The candidates of an alias with their paths. -/
def candidatesOf (specifier : List Char) (al : Alias) : List (Candidate × Path) :=
  (remainder? al specifier).elim [] fun rest =>
    al.target.directories.zipIdx.flatMap fun place =>
      probeSuffixes.zipIdx.map fun ending =>
        (⟨al, place.2, ending.2⟩,
          .ofString (String.ofList (placeIn place.1 rest ++ ending.1.toList)))

/-- The candidates of a specifier with their paths. -/
def candidates (table : AliasTable) (specifier : List Char) : List (Candidate × Path) :=
  table.aliases.flatMap (candidatesOf specifier)

/-- A candidate has the alias, and something is left. -/
theorem exists_of_mem_candidatesOf {specifier : List Char} {al : Alias} {c : Candidate × Path}
    (h : c ∈ candidatesOf specifier al) : c.1.al = al ∧ al.key.toList <+: specifier := by
  unfold candidatesOf at h
  cases hrest : remainder? al specifier with
  | none => simp [hrest] at h
  | some rest =>
    have hleaves := (remainder?_eq_some_iff al specifier rest).mp hrest
    simp only [hrest, Option.elim_some, mem_flatMap, mem_map] at h
    obtain ⟨_, -, _, -, rfl⟩ := h
    exact ⟨rfl, hleaves.begins⟩

/-- The candidates of a specifier, with their files. -/
theorem mem_candidates_iff (table : AliasTable) (specifier : List Char) (c : Candidate)
    (file : Path) :
    (c, file) ∈ table.candidates specifier ↔ table.IsCandidate specifier c file := by
  rw [candidates, mem_flatMap]
  constructor
  · rintro ⟨al, hal, h⟩
    unfold candidatesOf at h
    cases hrest : remainder? al specifier with
    | none => simp [hrest] at h
    | some rest =>
      simp only [hrest, Option.elim_some, mem_flatMap, mem_map] at h
      obtain ⟨place, hplace, ending, hending, heq⟩ := h
      cases heq
      exact .intro hal ((remainder?_eq_some_iff al specifier rest).mp hrest)
        (mem_zipIdx_iff_getElem?.mp hplace) (mem_zipIdx_iff_getElem?.mp hending)
  · rintro ⟨hal, hleaves, hdir, hsuffix⟩
    refine ⟨c.al, hal, ?_⟩
    rw [candidatesOf, (remainder?_eq_some_iff _ _ _).mpr hleaves, Option.elim_some]
    exact mem_flatMap.mpr ⟨_, mk_mem_zipIdx_iff_getElem?.mpr hdir,
      mem_map.mpr ⟨_, mk_mem_zipIdx_iff_getElem?.mpr hsuffix, rfl⟩⟩

/-- A numbered row is in the order of the numbers. -/
theorem pairwise_zipIdx {α : Type} (items : List α) :
    items.zipIdx.Pairwise fun a b => a.2 < b.2 := by
  have h := pairwise_lt_range' (s := 0) (n := items.length) 1
  rw [← zipIdx_map_snd] at h
  exact pairwise_map.mp h

/-- The candidates are listed in their order. -/
theorem Represents.pairwise_candidates [Host] {table : AliasTable} {root : String}
    {options : Keyed Value}
    (h : table.Represents root options) (keys : List String) (specifier : List Char) :
    (table.candidates specifier).Pairwise fun a b => Precedes keys a.1 b.1 := by
  rw [candidates, pairwise_flatMap]
  constructor
  · intro al _
    unfold candidatesOf
    cases remainder? al specifier with
    | none => exact .nil
    | some rest =>
      rw [Option.elim_some, pairwise_flatMap]
      constructor
      · intro place _
        rw [pairwise_map]
        exact (pairwise_zipIdx _).imp fun hlt => .earlierSuffix rfl rfl hlt
      · refine (pairwise_zipIdx _).imp fun hlt a ha b hb => ?_
        obtain ⟨_, -, rfl⟩ := mem_map.mp ha
        obtain ⟨_, -, rfl⟩ := mem_map.mp hb
        exact .earlierDirectory rfl hlt
  · -- Two keys that begin the same specifier and have one length are the same.
    have hnodup := pairwise_map.mp h.nodup
    refine (h.sorted.and hnodup).imp fun {first second} hordered a ha b hb => ?_
    obtain ⟨hfirst, hbegins⟩ := exists_of_mem_candidatesOf ha
    obtain ⟨hsecond, hbegins'⟩ := exists_of_mem_candidatesOf hb
    refine .longerKey (lt_of_le_of_ne (by rw [hfirst, hsecond]; exact hordered.1) ?_)
    rw [hfirst, hsecond]
    intro hlength
    have hshared := prefix_of_prefix_length_le hbegins hbegins'
      (by rw [String.length_toList, String.length_toList, hlength])
    refine hordered.2 (String.toList_inj.mp (hshared.eq_of_length ?_))
    rw [String.length_toList, String.length_toList, hlength]

/-- A specifier is searched for among its candidates. -/
theorem resolve_eq_findM? [Host] (table : AliasTable) (tree : Tree) (specifier : List Char)
    (importer : Path) (h : specifier.head? ≠ some '.') : table.resolve tree specifier importer =
      ((table.candidates specifier).map (·.2)).findM? tree.checkFile := by
  have hrelative : isRelative specifier = false := by
    cases specifier with
    | nil => rfl
    | cons c rest =>
      have hc : '.' ≠ c := fun heq => h (by rw [heq, head?_cons])
      simp [isRelative, List.isPrefixOf, hc]
  rw [resolve, hrelative, if_neg Bool.false_ne_true]
  delta probe
  rw [findSomeM?_findM?, flatMap_assoc, candidates, map_flatMap]
  congr 2
  funext al
  unfold aliasPlaces candidatesOf
  cases remainder? al specifier with
  | none => rfl
  | some rest =>
    have hdirectories := zipIdx_map_fst 0 al.target.directories
    have hsuffixes := zipIdx_map_fst 0 probeSuffixes
    simp only [Option.elim_some, map_flatMap, map_map, List.isEmpty_iff]
    nth_rewrite 1 [← hdirectories, ← hsuffixes]
    rw [map_map, flatMap_map]
    simp only [map_map]
    rfl

/-- A path that can be looked up and leads to no file. -/
def IsAbsent [Host] (tree : Tree) (file : Path) : Prop :=
  tree.isTooLong file = false ∧ tree.isFile file = false

/-- The first candidate that is not absent, with a property. -/
def IsFirst [Host] (table : AliasTable) (tree : Tree) (keys : List String) (specifier : List Char)
    (property : Path → Prop) : Prop :=
  ∃ c file, table.IsCandidate specifier c file ∧ property file ∧
    ∀ other path, table.IsCandidate specifier other path → Precedes keys other c →
      IsAbsent tree path

/-- What the search for a specifier gives. -/
structure FindsFirst [Host] (table : AliasTable) (tree : Tree) (keys : List String)
    (specifier : List Char) (result : Except LookupError (Option Path)) : Prop where
  /-- It finds the first candidate if that is a file. -/
  found_iff : ∀ file, result = .ok (some file) ↔ table.IsFirst tree keys specifier
    fun path => path = file ∧ tree.isTooLong path = false ∧ tree.isFile path = true
  /-- It finds nothing where all candidates are absent. -/
  none_iff : result = .ok none ↔ ∀ c file, table.IsCandidate specifier c file → IsAbsent tree file
  /-- It fails if the first candidate is too long. -/
  error_iff : ∀ e, result = .error e ↔
    e = .tooLong ∧ table.IsFirst tree keys specifier (tree.isTooLong · = true)

/-- A file is checked as absent where it is. -/
theorem checkFile_eq_false_iff [Host] (tree : Tree) (file : Path) :
    tree.checkFile file = .ok false ↔ IsAbsent tree file := by
  unfold Tree.checkFile IsAbsent
  split <;> simp_all

/-- A file is checked as present where it is. -/
theorem checkFile_eq_true_iff [Host] (tree : Tree) (file : Path) : tree.checkFile file = .ok true ↔
    tree.isTooLong file = false ∧ tree.isFile file = true := by
  unfold Tree.checkFile
  split <;> simp_all

/-- A path that is too long cannot be checked. -/
theorem checkFile_eq_error_iff [Host] (tree : Tree) (file : Path) (e : LookupError) :
    tree.checkFile file = .error e ↔ e = .tooLong ∧ tree.isTooLong file = true := by
  unfold Tree.checkFile
  split
  next hlong => exact ⟨fun h => ⟨(Except.error.inj h).symm, hlong⟩, fun h => by rw [h.1]⟩
  next hshort => exact iff_of_false (by simp) fun h => hshort h.2

section Search

variable [Host] {table : AliasTable} {root : String} {options : Keyed Value}
  (h : table.Represents root options) (tree : Tree) (keys : List String) (specifier : List Char)
include h

/-- Where the search stops is told by the order. -/
theorem Represents.stopsAt_iff (property : Path → Prop) :
    StopsAt (tree.checkFile · = .ok false) property ((table.candidates specifier).map (·.2)) ↔
      table.IsFirst tree keys specifier property := by
  have hmap : StopsAt (tree.checkFile · = .ok false) property
      ((table.candidates specifier).map (·.2)) ↔
        StopsAt (fun c => tree.checkFile c.2 = .ok false) (fun c => property c.2)
          (table.candidates specifier) := by
    induction table.candidates specifier with
    | nil => exact iff_of_false (by rintro ⟨⟩) (by rintro ⟨⟩)
    | cons c rest ih => rw [map_cons, stopsAt_cons, stopsAt_cons, ih]
  rw [hmap, StopsAt.iff_of_pairwise (fun _ _ hab => hab.asymm)
    (h.pairwise_candidates keys specifier)]
  simp only [Prod.exists, Prod.forall, mem_candidates_iff, checkFile_eq_false_iff, IsFirst]

/-- The search gives the first candidate that is not absent. -/
theorem Represents.findsFirst_resolve (importer : Path) (hhead : specifier.head? ≠ some '.') :
    table.FindsFirst tree keys specifier (table.resolve tree specifier importer) := by
  rw [resolve_eq_findM? table tree specifier importer hhead]
  refine ⟨fun file => ?_, ?_, fun e => ?_⟩
  · rw [findM?_eq_some_iff, h.stopsAt_iff tree keys]
    simp only [checkFile_eq_true_iff]
  · rw [findM?_eq_none_iff]
    simp only [mem_map, Prod.exists, exists_eq_right, mem_candidates_iff,
      checkFile_eq_false_iff, forall_exists_index]
    exact forall_comm
  · rw [findM?_eq_error_iff, h.stopsAt_iff tree keys]
    simp only [checkFile_eq_error_iff]
    constructor
    · rintro ⟨c, file, hc, ⟨he, hlong⟩, hbefore⟩
      exact ⟨he, c, file, hc, hlong, hbefore⟩
    · rintro ⟨he, c, file, hc, hlong, hbefore⟩
      exact ⟨c, file, hc, ⟨he, hlong⟩, hbefore⟩

end Search

/-- The aliases of a project are found unless a configuration file is nested too deeply, or its path
is too long. By the first usable one, each key has one alias: the last declared, or else the
default for keys that always have one. A specifier that is not relative refers to the first of its
candidates that is a file, or to nothing, unless a path that is too long comes before. -/
theorem aliases_resolve_first_candidate [Host] (p : Project) :
    ((∃ table, ofProject p.tree p.root = .ok table) ↔ ∀ e, ¬ p.AliasesFail e) ∧
    ∀ table, ofProject p.tree p.root = .ok table → ∃ found, Configures p.tree p.root found ∧
        table.Represents p.root.toString (options found) ∧ (found = none → table.aliases =
          defaultKeys.map fun key => ⟨key, defaultTarget p.root.toString⟩) ∧
        ∀ specifier importer, specifier.head? ≠ some '.' →
          table.FindsFirst p.tree (keysInOrder (options found)) specifier
            (table.resolve p.tree specifier importer) := by
  refine ⟨(p.ends_ofProject).returns_iff, fun table htable => ?_⟩
  obtain ⟨found, hfound, rfl⟩ := exists_ofConfig_of_ofProject htable
  have hrepresents := represents_ofConfig p.root found
  refine ⟨found, configures_of_config hfound, hrepresents, ?_, fun specifier importer hhead => ?_⟩
  · rintro rfl
    exact aliases_ofConfig_none p.root
  · exact hrepresents.findsFirst_resolve p.tree _ specifier importer hhead

/-- A project with two keys, one of which begins the other. -/
def layeredProject : Project where
  tree :=
    { files := [ (["tsconfig.json"], ("\x7b\"compilerOptions\": \x7b\"paths\": \x7b" ++
          "\"@/lib/*\": [\"lib/*\"], \"@/*\": [\"src/*\"]\x7d\x7d\x7d").toUTF8.toList),
        (["src", "lib", "b.ts"], [])]
      directories := [] }
  root := ⟨.slash, []⟩
  ignored := []

/-- The aliases of the project. -/
def layeredTable : AliasTable where
  configFile := some ⟨.slash, ["tsconfig.json"]⟩
  aliases := [⟨"@/lib/", ⟨false, ["/lib"]⟩⟩, ⟨"@/", ⟨false, ["/src"]⟩⟩,
    ⟨"~/", ⟨false, ["/src", "/"]⟩⟩]

section

attribute [local instance] Host.usual

/-- The configuration gives the aliases. -/
theorem ofProject_layeredProject :
    ofProject layeredProject.tree layeredProject.root = .ok layeredTable := by
  have heval : (config layeredProject.tree layeredProject.root).toOption.map (fun found =>
      (found.map (·.1), (entries layeredProject.root.toString (options found)).map
        fun entry => (⟨entry.1, entry.2⟩ : Alias))) =
      some (layeredTable.configFile, layeredTable.aliases) := by decide +kernel
  unfold ofProject
  cases hconfig : config layeredProject.tree layeredProject.root with
  | error e =>
    rw [hconfig] at heval
    cases heval
  | ok found =>
    rw [hconfig] at heval
    obtain ⟨hfile, haliases⟩ := Prod.mk.injEq .. ▸ Option.some.inj heval
    have hsorted : (ofConfig layeredProject.root found).aliases = layeredTable.aliases :=
      (congrArg (List.mergeSort · _) haliases).trans (mergeSort_of_pairwise (by decide +kernel))
    exact congrArg Except.ok (congrArg₂ AliasTable.mk hfile hsorted)

/-- The longer key leads nowhere, the shorter to the file. -/
theorem resolve_layeredProject :
    layeredTable.resolve layeredProject.tree "@/lib/b".toList (.ofString "/a.ts") =
      .ok (some ⟨.slash, ["src", "lib", "b.ts"]⟩) := by
  decide +kernel

/-- A specifier that two aliases match refers to the shorter one's file. -/
theorem aliases_resolve_first_candidate_layeredProject :
    ofProject layeredProject.tree layeredProject.root = .ok layeredTable ∧
    ∃ keys, layeredTable.IsFirst layeredProject.tree keys "@/lib/b".toList fun path =>
      path = ⟨.slash, ["src", "lib", "b.ts"]⟩ ∧ layeredProject.tree.isTooLong path = false ∧
        layeredProject.tree.isFile path = true := by
  obtain ⟨found, -, -, -, hfirst⟩ :=
    (aliases_resolve_first_candidate layeredProject).2 layeredTable ofProject_layeredProject
  exact ⟨ofProject_layeredProject, keysInOrder (options found),
    ((hfirst "@/lib/b".toList (.ofString "/a.ts") (by decide)).found_iff _).mp
      resolve_layeredProject⟩

/-- A project that has a source directory and no files. -/
def bareProject : Project where
  tree := { files := [], directories := [["src"]] }
  root := ⟨.slash, []⟩
  ignored := []

/-- A name with too many letters. -/
def longName : List Char :=
  List.replicate 256 'a'

/-- The long name has one letter only. -/
theorem eq_of_mem_longName {c : Char} (h : c ∈ longName) : c = 'a' :=
  eq_of_mem_replicate h

/-- The long name is a name. -/
theorem isName_longName : PathText.IsName longName where
  ne_nil := by decide
  ne_dot := by decide
  slashFree h := absurd (eq_of_mem_longName h) (by decide)

/-- The long name below the source directory. -/
theorem ofString_longName : Path.ofString (String.ofList (placeIn "/src" longName ++ "".toList)) =
      ⟨.slash, ["src", String.ofList longName]⟩ := by
  have hhead : longName.head? ≠ some '/' := by decide
  have hparts := PathText.parts_name isName_longName
  have hnames : ∀ name ∈ ["src".toList, longName], PathText.IsName name := by
    intro name hname
    rcases mem_pair.mp hname with rfl | rfl
    · exact ⟨by decide, by decide, by decide⟩
    · exact isName_longName
  rw [placeIn, if_neg isName_longName.ne_nil, joinNormal,
    PathText.normalize_join (by decide) hhead (by rw [hparts]; decide), hparts, String.toList_empty,
    append_nil]
  exact PathText.ofString_absolute hnames

/-- The long name makes a path too long. -/
theorem isTooLong_longName :
    bareProject.tree.isTooLong ⟨.slash, ["src", String.ofList longName]⟩ = true := by
  decide +kernel

/-- No candidate is a file, and still there is no answer. -/
theorem resolve_longName : ∃ table, ofProject bareProject.tree bareProject.root = .ok table ∧
      (∀ c file, table.IsCandidate ("@/".toList ++ longName) c file →
        bareProject.tree.isFile file = false) ∧
      table.resolve bareProject.tree ("@/".toList ++ longName) (.ofString "/a.ts") =
        .error .tooLong := by
  have hmissing : ∀ name ∈ configFiles,
      bareProject.tree.checkFile (bareProject.root / name) = .ok false := by
    decide +kernel
  refine ⟨ofConfig bareProject.root none, ofProject_of_missing hmissing, fun c file _ => ?_, ?_⟩
  · rw [Tree.isFile]
    cases bareProject.tree.place? file <;> rfl
  · have hdirectories : (defaultTarget bareProject.root.toString).directories = ["/src", "/"] := by
      decide +kernel
    have hplaces : aliasPlaces ⟨"@/", defaultTarget bareProject.root.toString⟩
        ("@/".toList ++ longName) = [placeIn "/src" longName, placeIn "/" longName] := by
      rw [aliasPlaces, (remainder?_eq_some_iff _ _ _).mpr (.beginning rfl longName)]
      simp [hdirectories, placeIn]
    have hprobe : probe bareProject.tree (placeIn "/src" longName) = .error .tooLong := by
      rw [probe, findM?_eq_error_iff]
      have hlong := isTooLong_longName
      rw [← ofString_longName] at hlong
      exact .here ((checkFile_eq_error_iff _ _ _).mpr ⟨rfl, hlong⟩)
    rw [resolve, if_neg (by decide), aliases_ofConfig_none, defaultKeys, List.map_cons,
      List.flatMap_cons, hplaces, List.cons_append, List.findSomeM?, hprobe]
    rfl

end

end AliasTable

end SiteAtlas
