import SiteAtlas.Proofs.DataPlacement

/-!
# Data accesses that are found twice

No pass adds a finding twice, but the last one also replaces: a wrapped key takes the place of a
query whose line does not show its key. A finding is repeated exactly if that key is spelled like
the description of a mutation or of an infinite query, and the line has one of these.
-/

namespace SiteAtlas.Source.DataAccess

open List Pattern

variable {number : Nat} {queries : List DataDependency}

/-- A query with a key on a line. -/
def query (number : Nat) (key : String) : DataDependency :=
  ⟨.useQuery, key, number⟩

section Replacing

variable (old new : DataDependency) {found : List DataDependency}

/-- What is not there is not replaced. -/
theorem replaceFirst_of_not_mem {old : DataDependency} (h : old ∉ found) :
    replaceFirst old new found = found := by
  induction found with
  | nil => rfl
  | cons d rest ih =>
    rw [mem_cons, not_or] at h
    rw [replaceFirst, if_neg (Ne.symm h.1), ih h.2]

/-- Replacing a finding by itself changes nothing. -/
theorem replaceFirst_self (d : DataDependency) (found : List DataDependency) :
    replaceFirst d d found = found := by
  induction found with
  | nil => rfl
  | cons first rest ih =>
    rw [replaceFirst, ih]
    split
    · next hfirst => rw [hfirst]
    · rfl

/-- Replacing a finding, seen through a filter for both. -/
theorem filter_replaceFirst (keep : DataDependency → Bool) (h : keep new = keep old)
    (found : List DataDependency) : (replaceFirst old new found).filter keep =
      if keep old then replaceFirst old new (found.filter keep) else found.filter keep := by
  induction found with
  | nil => simp [replaceFirst]
  | cons d rest ih =>
    rw [replaceFirst]
    split
    · next hd =>
      subst hd
      cases hkeep : keep d <;> simp [h, hkeep, replaceFirst]
    · next hd =>
      cases hkeep : keep d
      · rw [filter_cons_of_neg (by simp [hkeep]), ih, filter_cons_of_neg (by simp [hkeep])]
      · rw [filter_cons_of_pos hkeep, ih, filter_cons_of_pos hkeep, replaceFirst,
          if_neg hd]
        split <;> rfl

/-- After replacing, the old counts once less, the new once more. -/
theorem count_replaceFirst {old : DataDependency} (h : old ∈ found) (d : DataDependency) :
    (replaceFirst old new found).count d + [old].count d = found.count d + [new].count d := by
  induction found with
  | nil => cases h
  | cons first rest ih =>
    rw [replaceFirst]
    split
    · next hfirst =>
      rw [hfirst]
      simp only [count_cons, count_nil]
      omega
    · next hfirst =>
      have hrest := ih ((mem_cons.mp h).resolve_left (Ne.symm hfirst))
      rw [count_cons, count_cons (l := rest)]
      omega

end Replacing

/-- A wrapped query is first on its line, or another takes its key. -/
def takeKey (number : Nat) (queries : List DataDependency) (key : String) : List DataDependency :=
  if queries.isEmpty then [query number key]
  else replaceFirst (query number unknownQuery) (query number key) queries

/-- The keys of the wrapped queries that begin on a line, in order. -/
def wrappedKeys (content : List Char) (number : Nat) : List String :=
  ((wrappedQuery.findAll content).filter (lineOf content · == number)).map (·.groupString 1)

/-- A query replaced on its line is a query of that line only. -/
theorem entriesOn_replaceFirst_query (number other : Nat) (key : String)
    (found : List DataDependency) :
    entriesOn .useQuery number (replaceFirst (query other unknownQuery) (query other key) found) =
      if other = number then
        replaceFirst (query other unknownQuery) (query other key) (entriesOn .useQuery number found)
      else entriesOn .useQuery number found := by
  have hfilter := filter_replaceFirst (query other unknownQuery) (query other key)
    (fun d => d.kind == .useQuery && d.line == number) rfl found
  simpa [entriesOn, query] using hfilter

/-- A wrapped query, line by line. -/
theorem entriesOn_addWrappedQuery (content : List Char) (number : Nat)
    (found : List DataDependency) (m : Match) :
    entriesOn .useQuery number (addWrappedQuery content found m) = if lineOf content m = number then
        takeKey number (entriesOn .useQuery number found) (m.groupString 1)
      else entriesOn .useQuery number found := by
  have hnone : (found.any fun d => d.kind == .useQuery && d.line == lineOf content m) =
      !(entriesOn .useQuery (lineOf content m) found).isEmpty := by
    rw [Bool.eq_iff_iff]
    simp [entriesOn]
  unfold addWrappedQuery
  dsimp only
  rw [hnone]
  cases hqueries : (entriesOn .useQuery (lineOf content m) found).isEmpty with
  | true =>
    rw [if_neg (by simp), entriesOn_addUnique]
    refine if_ctx_congr (by simp) (fun hline => ?_) fun _ => rfl
    rw [← hline, takeKey, if_pos hqueries, List.isEmpty_iff.mp hqueries]
    rfl
  | false =>
    rw [if_pos (by simp)]
    refine (entriesOn_replaceFirst_query number (lineOf content m) _ found).trans ?_
    refine if_ctx_congr Iff.rfl (fun hline => ?_) fun _ => rfl
    rw [← hline, takeKey, if_neg (by simp [hqueries])]

/-- The queries on a line after the pass over wrapped queries. -/
theorem entriesOn_foldl_takeKey (content : List Char) (number : Nat) (ms : List Match)
    (found : List DataDependency) :
    entriesOn .useQuery number (ms.foldl (addWrappedQuery content) found) =
      ((ms.filter (lineOf content · == number)).map (·.groupString 1)).foldl (takeKey number)
        (entriesOn .useQuery number found) := by
  induction ms generalizing found with
  | nil => rfl
  | cons m ms ih =>
    rw [foldl_cons, ih, entriesOn_addWrappedQuery, filter_cons]
    by_cases hline : lineOf content m = number <;> simp [hline]

/-- With queries but none of unknown key, keys change nothing. -/
theorem foldl_takeKey_of_known (hne : queries ≠ []) (h : query number unknownQuery ∉ queries)
    (keys : List String) : keys.foldl (takeKey number) queries = queries := by
  induction keys with
  | nil => rfl
  | cons key keys ih =>
    have hstep : takeKey number queries key = queries := by
      rw [takeKey, if_neg (by simpa using hne), replaceFirst_of_not_mem _ h]
    rw [foldl_cons, hstep, ih]

/-- A query of unknown key takes the first key unlike its own. -/
theorem foldl_takeKey_of_unknown (hnodup : queries.Nodup) (h : query number unknownQuery ∈ queries)
    (keys : List String) : keys.foldl (takeKey number) queries =
      (keys.find? (· != unknownQuery)).elim queries fun key =>
        replaceFirst (query number unknownQuery) (query number key) queries := by
  induction keys with
  | nil => rfl
  | cons key keys ih =>
    have hstep : takeKey number queries key =
        replaceFirst (query number unknownQuery) (query number key) queries := by
      rw [takeKey, if_neg (by simpa using ne_nil_of_mem h)]
    rw [foldl_cons, hstep, find?_cons]
    by_cases hkey : key = unknownQuery
    · rw [hkey, replaceFirst_self, ih]
      simp
    · -- The only query of unknown key is gone, so further keys find none.
      have hcount := count_replaceFirst (query number key) h (query number unknownQuery)
      have hother : query number key ≠ query number unknownQuery := by simpa [query] using hkey
      rw [count_eq_one_of_mem hnodup h, count_cons_self, count_cons_of_ne hother] at hcount
      have hgone : query number unknownQuery ∉
          replaceFirst (query number unknownQuery) (query number key) queries := by
        rw [← count_eq_zero]
        simp only [count_nil] at hcount
        omega
      have htaken : query number key ∈
          replaceFirst (query number unknownQuery) (query number key) queries := by
        have hnew := count_replaceFirst (query number key) h (query number key)
        rw [count_cons_of_ne hother.symm, count_cons_self] at hnew
        rw [← count_pos_iff]
        omega
      rw [foldl_takeKey_of_known (ne_nil_of_mem htaken) hgone, bne_iff_ne.mpr hkey]
      rfl

/-- On a line without queries there is one at most in the end. -/
theorem length_foldl_takeKey (h : queries.length ≤ 1) (keys : List String) :
    (keys.foldl (takeKey number) queries).length ≤ 1 := by
  induction keys generalizing queries with
  | nil => exact h
  | cons key keys ih =>
    refine ih ?_
    unfold takeKey
    split
    · exact Nat.le_refl 1
    · have hsame : place (query number key) = place (query number unknownQuery) := rfl
      have hplaces := congrArg List.length (map_place_replaceFirst hsame queries)
      rw [length_map, length_map] at hplaces
      rwa [hplaces]

/-- A query comes twice if it takes a key that another one had. -/
theorem count_foldl_takeKey (hnodup : queries.Nodup) (keys : List String) (d : DataDependency) :
    (keys.foldl (takeKey number) queries).count d ≤ 2 ∧
      ((keys.foldl (takeKey number) queries).count d = 2 ↔
        query number unknownQuery ∈ queries ∧ d ∈ queries ∧
          ∃ key, keys.find? (· != unknownQuery) = some key ∧ d = query number key) := by
  have honce := nodup_iff_count_le_one.mp hnodup d
  by_cases hunknown : query number unknownQuery ∈ queries
  · rw [foldl_takeKey_of_unknown hnodup hunknown]
    cases hkey : keys.find? (· != unknownQuery) with
    | none =>
      refine ⟨honce.trans (by decide), iff_of_false (by simp only [Option.elim]; omega) ?_⟩
      rintro ⟨-, -, key, hsome, -⟩
      cases hsome
    | some key =>
      have hother : query number key ≠ query number unknownQuery := by
        have := find?_some hkey
        simpa [query] using this
      have hcount := count_replaceFirst (query number key) hunknown d
      simp only [Option.elim, hunknown, true_and, Option.some.injEq, exists_eq_left']
      by_cases hd : d = query number key
      · subst hd
        rw [count_cons_of_ne hother.symm, count_cons_self] at hcount
        simp only [count_nil] at hcount
        rw [← count_pos_iff]
        exact ⟨by omega, by simp only [and_true]; omega⟩
      · rw [count_cons_of_ne (Ne.symm hd), count_nil] at hcount
        exact ⟨by omega, iff_of_false (by omega) fun h => hd h.2⟩
  · have hfew : (keys.foldl (takeKey number) queries).count d ≤ 1 := by
      cases queries with
      | nil => exact count_le_length.trans (length_foldl_takeKey (Nat.zero_le _) keys)
      | cons first rest =>
        rwa [foldl_takeKey_of_known (cons_ne_nil first rest) hunknown]
    exact ⟨by omega, iff_of_false (by omega) fun h => hunknown h.1⟩

/-- A line has each finding once. -/
theorem nodup_scanLine (line : List Char) (number : Nat) : (scanLine line number).1.Nodup := by
  have hfold : ∀ (ms : List Matcher) (s : List DataDependency × List Family), s.1.Nodup →
      (ms.foldl (scanStep line number) s).1.Nodup := by
    intro ms
    induction ms with
    | nil => exact fun s hs => hs
    | cons matcher ms ih =>
      intro s hs
      refine ih _ ?_
      rcases scanStep_cases line number s matcher with hsame | ⟨d, -, -, hstep⟩
      · rwa [hsame]
      · rw [hstep]
        exact nodup_addUnique s.1 d hs
  rw [scanLine_eq_foldl]
  exact hfold matchers ([], []) nodup_nil

/-- What is found on a line is found by a matcher. -/
theorem exists_finding?_of_mem_scanLine {line : List Char} {d : DataDependency}
    (h : d ∈ (scanLine line number).1) :
    ∃ matcher ∈ matchers, matcher.finding? line number = some d := by
  have hfold : ∀ (ms : List Matcher) (s : List DataDependency × List Family),
      d ∈ (ms.foldl (scanStep line number) s).1 →
        d ∈ s.1 ∨ ∃ matcher ∈ ms, matcher.finding? line number = some d := by
    intro ms
    induction ms with
    | nil => exact fun s hs => .inl hs
    | cons matcher ms ih =>
      intro s hs
      rcases ih _ hs with hstep | ⟨other, hother, hfinding⟩
      · rcases scanStep_cases line number s matcher with hsame | ⟨found, hfound, -, hadd⟩
        · exact .inl (hsame ▸ hstep)
        · rw [hadd] at hstep
          rcases (mem_addUnique _ _ d).mp hstep with hmem | rfl
          · exact .inl hmem
          · exact .inr ⟨matcher, mem_cons_self, hfound⟩
      · exact .inr ⟨other, mem_cons_of_mem matcher hother, hfinding⟩
  rw [scanLine_eq_foldl] at h
  exact (hfold matchers ([], []) h).resolve_left not_mem_nil

/-- A line describes a query by key, or as one of two kinds. -/
def Describes (line : List Char) (key : String) : Prop :=
  (text "useQuery" ++ callOrTypes).occursIn line ∧ describeQuery line = key ∨
    (text "useMutation" ++ callOrTypes).occursIn line ∧ "(mutation)" = key ∨
    (text "useInfiniteQuery" ++ callOrTypes).occursIn line ∧ "(infinite query)" = key

/-- A line has the queries it describes. -/
theorem query_mem_scanLine (line : List Char) (number : Nat) (key : String) :
    query number key ∈ (scanLine line number).1 ↔ Describes line key := by
  have hfinding : (∃ matcher ∈ matchers, matcher.finding? line number = some (query number key)) ↔
      Describes line key := by
    simp [matchers, Matcher.finding?, query, Describes, always, occursIn, Option.isSome_iff_exists]
  rw [← hfinding]
  refine ⟨exists_finding?_of_mem_scanLine, ?_⟩
  rintro ⟨matcher, hmatcher, hfound⟩
  refine mem_scanLine_of_finding? hmatcher (Option.eq_none_iff_forall_ne_some.mpr fun f hf => ?_)
    hfound
  -- Matchers of a family find no queries.
  have hkind := (Matcher.of_finding? hfound).1.trans ((family_eq_some_iff hmatcher f).mp hf)
  cases f <;> cases hkind

/-- The queries on a line of the text, after all passes. -/
theorem entriesOn_query_collected {content line : List Char} {before after : List (List Char)}
    (h : Text.splitOn '\n' content = before ++ line :: after) :
    entriesOn .useQuery (before.length + 1) (collected content) =
      (wrappedKeys content (before.length + 1)).foldl (takeKey (before.length + 1))
        (entriesOn .useQuery (before.length + 1) (scanLine line (before.length + 1)).1) := by
  rw [collected, entriesOn_foldl_takeKey, fetched, entriesOn_foldl_addWrappedFetch (by decide),
    entriesOn_scanLines h]
  rfl

/-- A key comes twice on a line: the line describes a query without key and another one by the first
key that a wrapped query brings. -/
structure Doubled (content line : List Char) (number : Nat) (key : String) : Prop where
  unknown : Describes line unknownQuery
  described : Describes line key
  taken : (wrappedKeys content number).find? (· != unknownQuery) = some key

/-- A key that comes twice describes one of those kinds. -/
theorem Doubled.key_eq {content line : List Char} {key : String}
    (h : Doubled content line number key) : key = "(mutation)" ∨ key = "(infinite query)" := by
  have hkey : key ≠ unknownQuery := by simpa using find?_some h.taken
  rcases h.described with ⟨-, hquery⟩ | ⟨-, hmutation⟩ | ⟨-, hinfinite⟩
  · -- The line does not show a key, so this is no other one.
    rcases h.unknown with ⟨-, hunknown⟩ | ⟨-, hother⟩ | ⟨-, hother⟩
    · exact absurd (hquery.symm.trans hunknown) hkey
    · exact absurd hother (by decide)
    · exact absurd hother (by decide)
  · exact .inl hmutation.symm
  · exact .inr hinfinite.symm

/-- A finding is counted among those of its kind on its line. -/
theorem count_extract (content : List Char) (d : DataDependency) :
    (extract content).count d = (entriesOn d.kind d.line (collected content)).count d := by
  rw [entriesOn, count_filter (by simp)]
  exact (mergeSort_perm (collected content) _).count_eq d

section Line

variable {content line : List Char} {before after : List (List Char)}
  (h : Text.splitOn '\n' content = before ++ line :: after)
include h

/-- Findings of another kind are never repeated. -/
theorem count_extract_of_ne {d : DataDependency} (hkind : d.kind ≠ .useQuery)
    (hline : d.line = before.length + 1) : (extract content).count d ≤ 1 := by
  rw [count_extract, collected, entriesOn_foldl_addWrappedQuery hkind, hline]
  by_cases hfetch : d.kind = .fetch
  · have hcounts := (fetched_fetch h).1
    rw [hfetch]
    refine count_le_length.trans ?_
    rw [hcounts]
    split <;> decide
  · rw [fetched, entriesOn_foldl_addWrappedFetch hfetch, entriesOn_scanLines h]
    exact nodup_iff_count_le_one.mp ((nodup_scanLine line _).filter _) d

/-- A query comes at most twice, and then its key does too. -/
theorem count_extract_query (key : String) :
    (extract content).count (query (before.length + 1) key) ≤ 2 ∧
      ((extract content).count (query (before.length + 1) key) = 2 ↔
        Doubled content line (before.length + 1) key) := by
  have hmem : ∀ key, query (before.length + 1) key ∈
      entriesOn .useQuery (before.length + 1) (scanLine line (before.length + 1)).1 ↔
        Describes line key := fun key => by
    rw [mem_entriesOn, query_mem_scanLine]
    exact and_iff_left ⟨rfl, rfl⟩
  have hnodup : (entriesOn .useQuery (before.length + 1)
      (scanLine line (before.length + 1)).1).Nodup := (nodup_scanLine line _).filter _
  obtain ⟨hle, htwo⟩ := count_foldl_takeKey hnodup (wrappedKeys content (before.length + 1))
    (query (before.length + 1) key)
  have hcount := count_extract content (query (before.length + 1) key)
  rw [query, entriesOn_query_collected h] at hcount
  rw [query, hcount]
  refine ⟨hle, htwo.trans ?_⟩
  rw [hmem, hmem]
  constructor
  · rintro ⟨hunknown, hkey, taken, htaken, hquery⟩
    obtain rfl : key = taken := congrArg DataDependency.source hquery
    exact ⟨hunknown, hkey, htaken⟩
  · exact fun ⟨hunknown, hkey, htaken⟩ => ⟨hunknown, hkey, key, htaken, rfl⟩

end Line

/-- A numbered line stands in its place. -/
theorem exists_split_of_mem_numberedLines {content line : List Char}
    (h : (line, number) ∈ numberedLines content) : ∃ before after,
      Text.splitOn '\n' content = before ++ line :: after ∧ number = before.length + 1 := by
  obtain ⟨hlow, hline⟩ := mk_mem_zipIdx_iff_le_and_getElem?_sub.mp h
  obtain ⟨hlt, rfl⟩ := List.getElem?_eq_some_iff.mp hline
  refine ⟨_, _, ((take_append_drop (number - 1) _).symm.trans
    (congrArg _ (drop_eq_getElem_cons hlt))), ?_⟩
  rw [length_take]
  omega

/-- A finding lies on a line of the text. -/
theorem exists_line_of_mem_extract {content : List Char} {d : DataDependency}
    (h : d ∈ extract content) : ∃ line, (line, d.line) ∈ numberedLines content := by
  obtain ⟨hlow, hhigh⟩ := line_of_mem_extract h
  have hnumber : d.line - 1 < (Text.splitOn '\n' content).length := by
    rw [Text.length_splitOn]
    omega
  exact ⟨_, mk_mem_zipIdx_iff_le_and_getElem?_sub.mpr ⟨hlow, getElem?_eq_getElem hnumber⟩⟩

/-- A finding comes at most twice, exactly if its key does. -/
theorem count_extract_le_and_iff (content : List Char) (d : DataDependency) :
    (extract content).count d ≤ 2 ∧ ((extract content).count d = 2 ↔ d.kind = .useQuery ∧
      ∃ line, (line, d.line) ∈ numberedLines content ∧ Doubled content line d.line d.source) := by
  by_cases hquery : d.kind = .useQuery ∧ ∃ line, (line, d.line) ∈ numberedLines content
  · obtain ⟨hkind, line, hline⟩ := hquery
    obtain ⟨before, after, hsplit, hnumber⟩ := exists_split_of_mem_numberedLines hline
    have hd : d = query (before.length + 1) d.source := by rw [query, ← hkind, ← hnumber]
    obtain ⟨hle, htwo⟩ := count_extract_query hsplit d.source
    rw [← hd] at hle htwo
    rw [← hnumber] at htwo
    refine ⟨hle, htwo.trans ⟨fun hdoubled => ⟨hkind, line, hline, hdoubled⟩, ?_⟩⟩
    rintro ⟨-, other, hother, hdoubled⟩
    obtain rfl : other = line :=
      congrArg Prod.fst (eq_of_mem_numberedLines hsplit hother hnumber)
    exact hdoubled
  · have hle : (extract content).count d ≤ 1 := by
      by_cases hmem : d ∈ extract content
      · obtain ⟨line, hline⟩ := exists_line_of_mem_extract hmem
        obtain ⟨before, after, hsplit, hnumber⟩ := exists_split_of_mem_numberedLines hline
        exact count_extract_of_ne hsplit (fun hkind => hquery ⟨hkind, line, hline⟩) hnumber
      · rw [count_eq_zero.mpr hmem]
        exact Nat.zero_le 1
    exact ⟨by omega, iff_of_false (by omega) fun ⟨hkind, line, hline, _⟩ =>
      hquery ⟨hkind, line, hline⟩⟩

/-- A finding is there twice at most, and twice exactly if it is a query whose key comes twice on
its line. So nothing is repeated unless a wrapped key is spelled like the description of a mutation
or of an infinite query on the line of a query without key. -/
theorem repeated_accesses (content : List Char) : (∀ d, (extract content).count d ≤ 2) ∧
    (∀ d, (extract content).count d = 2 ↔ d.kind = .useQuery ∧
      ∃ line, (line, d.line) ∈ numberedLines content ∧ Doubled content line d.line d.source) ∧
    (∀ d, (extract content).count d = 2 → d.source = "(mutation)" ∨ d.source = "(infinite query)") ∧
    ((extract content).Nodup ↔ ∀ line number key, (line, number) ∈ numberedLines content →
      ¬ Doubled content line number key) := by
  have hcount := count_extract_le_and_iff content
  refine ⟨fun d => (hcount d).1, fun d => (hcount d).2, fun d htwo => ?_, ?_⟩
  · obtain ⟨-, line, -, hdoubled⟩ := (hcount d).2.mp htwo
    exact hdoubled.key_eq
  · rw [List.nodup_iff_count_le_one]
    constructor
    · intro hnodup line number key hline hdoubled
      have htwo := (hcount (query number key)).2.mpr ⟨rfl, line, hline, hdoubled⟩
      have hone := hnodup (query number key)
      omega
    · intro hnone d
      obtain ⟨hle, htwo⟩ := hcount d
      by_contra hmany
      obtain ⟨-, line, hline, hdoubled⟩ := htwo.mp (by omega)
      exact hnone line d.line d.source hline hdoubled

/-- A mutation and a wrapped query whose key is spelled like one. -/
def mutationKey : List Char :=
  "useMutation(); useQuery(\n'(mutation)')".toList

/-- The two are one finding, which is there twice. -/
theorem extract_mutationKey :
    (extract mutationKey).count (query 1 "(mutation)") = 2 ∧ ¬ (extract mutationKey).Nodup := by
  have htwo : (extract mutationKey).count (query 1 "(mutation)") = 2 := by
    rw [count_extract]
    decide +kernel
  refine ⟨htwo, fun hnodup => ?_⟩
  have hone := List.nodup_iff_count_le_one.mp hnodup (query 1 "(mutation)")
  omega

end SiteAtlas.Source.DataAccess
