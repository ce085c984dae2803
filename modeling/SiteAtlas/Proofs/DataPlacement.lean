import SiteAtlas.Proofs.CandidateFiles
import SiteAtlas.Proofs.Reading
import SiteAtlas.Proofs.Sorting

/-!
# Where data accesses are found

Data accesses are found in three passes: matchers run over every line, wrapped calls are added where
they begin, and wrapped keys replace what was left open. Lines are counted by splitting or by line
breaks, which mean the same. Of one kind on one line, matchers of a family leave one finding at
most, a wrapped call is added only where there is none, and a wrapped key takes the place of a
finding.
-/

namespace SiteAtlas

open List

variable {cs : List Char} {d : DataDependency}

/-- A text has one line more than line breaks. -/
theorem Text.length_splitOn (separator : Char) (cs : List Char) :
    (Text.splitOn separator cs).length = cs.count separator + 1 := by
  induction cs with
  | nil => rfl
  | cons c rest ih =>
    rw [Text.splitOn]
    split
    · next hc => rw [hc, count_cons_self, length_cons, ih]
    · next hc =>
      rw [count_cons_of_ne hc, ← ih]
      cases hparts : Text.splitOn separator rest with
      | nil => exact absurd hparts (Text.splitOn_ne_nil separator rest)
      | cons part parts => rfl

/-- A position lies on a line, its final break included. -/
def Text.OnLine (cs : List Char) (position number : Nat) : Prop :=
  ∃ before line after, Text.splitOn '\n' cs = before ++ line :: after ∧
    number = before.length + 1 ∧ (before.flatMap (· ++ ['\n'])).length ≤ position ∧
    position ≤ (before.flatMap (· ++ ['\n'])).length + line.length

/-- A position lies on the line after the breaks before it. -/
theorem Text.onLine_count {position : Nat} (h : position ≤ cs.length) :
    Text.OnLine cs position ((cs.take position).count '\n' + 1) := by
  induction cs generalizing position with
  | nil =>
    obtain rfl := Nat.le_zero.mp h
    exact ⟨[], [], [], rfl, rfl, Nat.le_refl 0, Nat.le_refl 0⟩
  | cons c rest ih =>
    cases position with
    | zero =>
      obtain ⟨line, others, hlines⟩ :=
        exists_cons_of_ne_nil (Text.splitOn_ne_nil '\n' (c :: rest))
      exact ⟨[], line, others, hlines, rfl, Nat.le_refl 0, Nat.zero_le _⟩
    | succ position =>
      obtain ⟨before, line, after, hlines, hnumber, hlow, hhigh⟩ :=
        ih (Nat.le_of_succ_le_succ h)
      by_cases hc : c = '\n'
      · -- The line break ends an empty first line.
        refine ⟨[] :: before, line, after, ?_, ?_, ?_, ?_⟩
        · rw [Text.splitOn, if_pos hc, hlines, cons_append]
        · rw [take_succ_cons, hc, count_cons_self, hnumber, length_cons]
        · simp only [flatMap_cons, length_append, length_singleton, length_nil]
          omega
        · simp only [flatMap_cons, length_append, length_singleton, length_nil]
          omega
      · rw [take_succ_cons, count_cons_of_ne hc]
        cases before with
        | nil =>
          refine ⟨[], c :: line, after, ?_, hnumber, Nat.zero_le _, ?_⟩
          · rw [Text.splitOn, if_neg hc, hlines]
            rfl
          · exact Nat.succ_le_succ hhigh
        | cons first before =>
          refine ⟨(c :: first) :: before, line, after, ?_, hnumber, ?_, ?_⟩
          · rw [Text.splitOn, if_neg hc, hlines]
            rfl
          · simp only [flatMap_cons, length_append, length_cons] at hlow ⊢
            omega
          · simp only [flatMap_cons, length_append, length_cons] at hhigh ⊢
            omega

/-- Lines joined again begin with the lines before one of them. -/
theorem Text.join_append_cons (separator : Char) (before : List (List Char)) (line : List Char)
    (after : List (List Char)) : Text.join [separator] (before ++ line :: after) =
      before.flatMap (· ++ [separator]) ++ Text.join [separator] (line :: after) := by
  induction before with
  | nil => rfl
  | cons first before ih =>
    rw [cons_append, Text.join, ih, flatMap_cons, append_assoc, append_assoc, append_assoc]
    simp

/-- A position lies on one line only. -/
theorem Text.number_of_onLine {position number : Nat} (h : Text.OnLine cs position number) :
    number = (cs.take position).count '\n' + 1 := by
  obtain ⟨before, line, after, hlines, rfl, hlow, hhigh⟩ := h
  have hfree : ∀ part ∈ before ++ line :: after, '\n' ∉ part :=
    fun part hpart => Text.not_mem_of_mem_splitOn '\n' cs part (hlines ▸ hpart)
  have hcount : (before.flatMap (· ++ ['\n'])).count '\n' = before.length := by
    clear hlines hlow hhigh
    induction before with
    | nil => rfl
    | cons first before ih =>
      have hfirst : first.count '\n' = 0 := count_eq_zero.mpr (hfree first (by simp))
      rw [flatMap_cons, count_append, count_append, hfirst,
        ih fun part hpart => hfree part (mem_cons_of_mem first hpart), length_cons]
      simp [Nat.add_comm]
  have hbegins : ∃ rest, Text.join ['\n'] (line :: after) = line ++ rest := by
    cases after with
    | nil => exact ⟨[], (append_nil line).symm⟩
    | cons next others => exact ⟨_, by rw [Text.join, append_assoc]; simp⟩
  obtain ⟨rest, hrest⟩ := hbegins
  rw [← Text.join_splitOn '\n' cs, hlines, Text.join_append_cons, hrest, take_append,
    take_of_length_le hlow, take_append_of_le_length (by omega), count_append,
    hcount, count_eq_zero.mpr fun hmem => hfree line (by simp) (mem_of_mem_take hmem)]

/-- A match in a text begins within it. -/
theorem Pattern.offset_of_hit_mem_piecesFrom {p : Pattern} {m : Match} (skip : Nat)
    (before : List Char) (offset : Nat) (h : .hit m ∈ p.piecesFrom skip before offset cs) :
    m.offset < offset + cs.length := by
  induction cs generalizing skip before offset with
  | nil => cases skip <;> cases h
  | cons c rest ih =>
    have hlength : offset + 1 + rest.length = offset + (c :: rest).length := by
      rw [length_cons]
      omega
    rw [← hlength]
    cases skip with
    | succ skip => exact ih skip _ _ h
    | zero =>
      rw [piecesFrom] at h
      cases hmatch : p.matchAt before offset (c :: rest) with
      | none =>
        rw [hmatch] at h
        rcases mem_cons.mp h with hplain | hrest
        · cases hplain
        · exact ih _ _ _ hrest
      | some found =>
        rw [hmatch] at h
        rcases mem_cons.mp h with hhit | hrest
        · cases hhit
          obtain ⟨d, -, rfl⟩ := Option.map_eq_some_iff.mp hmatch
          change offset < _
          omega
        · exact ih _ _ _ hrest

/-- A match that is found in a text begins within it. -/
theorem Pattern.offset_lt_of_mem_findAll {p : Pattern} {m : Match} (h : m ∈ p.findAll cs) :
    m.offset < cs.length := by
  obtain ⟨piece, hpiece, hm⟩ := mem_filterMap.mp h
  cases piece with
  | plain c => cases hm
  | hit found =>
    obtain rfl := Option.some.inj hm
    simpa using offset_of_hit_mem_piecesFrom 0 [] 0 hpiece

/-- Collecting a value once, seen through a filter. -/
theorem filter_addUnique {α : Type} [BEq α] [LawfulBEq α] (keep : α → Bool) (items : List α)
    (item : α) : (Text.addUnique items item).filter keep =
      if keep item then Text.addUnique (items.filter keep) item else items.filter keep := by
  by_cases hitem : item ∈ items
  · rw [addUnique_of_mem items item hitem]
    split
    · next hkeep => rw [addUnique_of_mem _ item (mem_filter.mpr ⟨hitem, hkeep⟩)]
    · rfl
  · rw [addUnique_of_not_mem items item hitem, filter_append]
    split
    · next hkeep =>
      rw [addUnique_of_not_mem _ item fun hmem => hitem (mem_of_mem_filter hmem)]
      simp [hkeep]
    · next hkeep => simp [hkeep]

namespace Source.DataAccess

/-- The findings of a kind on a line. -/
def entriesOn (kind : DataKind) (number : Nat) (found : List DataDependency) :
    List DataDependency :=
  found.filter fun d => d.kind == kind && d.line == number

/-- What the findings of a kind on a line are. -/
theorem mem_entriesOn {kind : DataKind} {number : Nat} {found : List DataDependency} :
    d ∈ entriesOn kind number found ↔ d ∈ found ∧ d.kind = kind ∧ d.line = number := by
  simp [entriesOn]

/-- A new finding is an entry for its own kind and line only. -/
theorem entriesOn_addUnique (kind : DataKind) (number : Nat) (found : List DataDependency)
    (d : DataDependency) : entriesOn kind number (Text.addUnique found d) =
      if d.kind = kind ∧ d.line = number then Text.addUnique (entriesOn kind number found) d
      else entriesOn kind number found := by
  simpa [entriesOn] using filter_addUnique (fun d => d.kind == kind && d.line == number) found d

/-- What a matcher finds on a line. -/
def Matcher.finding? (matcher : Matcher) (line : List Char) (number : Nat) :
    Option DataDependency :=
  (matcher.pattern.find? line).map fun m => ⟨matcher.kind, matcher.describe m line, number⟩

/-- The findings on a line after one more matcher. -/
def scanStep (line : List Char) (number : Nat) (s : List DataDependency × List Family)
    (matcher : Matcher) : List DataDependency × List Family :=
  if (matcher.family.map s.2.contains).getD false then s
  else match matcher.finding? line number with
    | none => s
    | some d => (Text.addUnique s.1 d, s.2 ++ matcher.family.toList)

/-- Scanning a line runs the matchers in turn. -/
theorem scanLine_eq_foldl (line : List Char) (number : Nat) :
    scanLine line number = matchers.foldl (scanStep line number) ([], []) := by
  unfold scanLine
  congr 1
  funext s matcher
  unfold scanStep Matcher.finding?
  cases matcher.pattern.find? line <;> rfl

section Step

variable {line : List Char} {number : Nat} {s : List DataDependency × List Family}
  {matcher : Matcher}

/-- A matcher whose family has claimed the line is passed over. -/
theorem scanStep_of_claimed {f : Family} (hfamily : matcher.family = some f) (hclaimed : f ∈ s.2) :
    scanStep line number s matcher = s := by
  simp [scanStep, hfamily, hclaimed]

/-- A matcher that finds nothing changes nothing. -/
theorem scanStep_of_none (h : matcher.finding? line number = none) :
    scanStep line number s matcher = s := by
  simp [scanStep, h]

/-- A matcher that finds something adds it and claims the line. -/
theorem scanStep_of_some (h : matcher.finding? line number = some d)
    (hfree : ∀ f ∈ matcher.family, f ∉ s.2) : scanStep line number s matcher =
      (Text.addUnique s.1 d, s.2 ++ matcher.family.toList) := by
  have hopen : (matcher.family.map s.2.contains).getD false = false := by
    cases hfamily : matcher.family with
    | none => rfl
    | some f => simpa using hfree f hfamily
  rw [scanStep, hopen, h]
  rfl

variable (line number s matcher) in
/-- What one matcher can do. -/
theorem scanStep_cases : scanStep line number s matcher = s ∨
    ∃ d, matcher.finding? line number = some d ∧ (∀ f ∈ matcher.family, f ∉ s.2) ∧
      scanStep line number s matcher = (Text.addUnique s.1 d, s.2 ++ matcher.family.toList) := by
  by_cases hclaimed : ∃ f ∈ matcher.family, f ∈ s.2
  · obtain ⟨f, hfamily, hf⟩ := hclaimed
    exact .inl (scanStep_of_claimed hfamily hf)
  · have hfree : ∀ f ∈ matcher.family, f ∉ s.2 := fun f hf hmem => hclaimed ⟨f, hf, hmem⟩
    cases hfinding : matcher.finding? line number with
    | none => exact .inl (scanStep_of_none hfinding)
    | some d => exact .inr ⟨d, rfl, hfree, scanStep_of_some hfinding hfree⟩

/-- A finding has its matcher's kind and its line. -/
theorem Matcher.of_finding? (h : matcher.finding? line number = some d) :
    d.kind = matcher.kind ∧ d.line = number := by
  obtain ⟨m, -, rfl⟩ := Option.map_eq_some_iff.mp h
  exact ⟨rfl, rfl⟩

/-- A matcher takes nothing away and adds on its line only. -/
theorem mem_scanStep (d : DataDependency) : (d ∈ s.1 → d ∈ (scanStep line number s matcher).1) ∧
      (d ∈ (scanStep line number s matcher).1 → d ∈ s.1 ∨ d.line = number) := by
  rcases scanStep_cases line number s matcher with
    hsame | ⟨added, hadded, -, hstep⟩
  · rw [hsame]
    exact ⟨id, .inl⟩
  · rw [hstep, mem_addUnique]
    refine ⟨.inl, fun h => h.imp_right ?_⟩
    rintro rfl
    exact (Matcher.of_finding? hadded).2

end Step

section Families

variable {line : List Char} {number : Nat} {f : Family} {ms : List Matcher}
  {s : List DataDependency × List Family}

/-- The kind that a family reports. -/
def Family.kind : Family → DataKind
  | .fetch => .fetch
  | .axios => .axios

/-- Of all matchers, those of a family are those of its kind. -/
theorem family_eq_some_iff {matcher : Matcher} (h : matcher ∈ matchers) (f : Family) :
    matcher.family = some f ↔ matcher.kind = f.kind := by
  simp only [matchers, mem_cons, not_mem_nil, or_false] at h
  rcases h with rfl | rfl | rfl | rfl | rfl | rfl | rfl | rfl | rfl | rfl | rfl | rfl | rfl | rfl |
    rfl | rfl <;> cases f <;> decide

/-- What the first successful matcher of a family finds. -/
def firstFinding? (f : Family) (line : List Char) (number : Nat) (ms : List Matcher) :
    Option DataDependency :=
  ms.findSome? fun matcher =>
    if matcher.family = some f then matcher.finding? line number else none

variable (line number) in
/-- On a claimed line, no matcher changes findings of the kind. -/
theorem entriesOn_foldl_of_claimed
    (hms : ∀ matcher ∈ ms, matcher.family = some f ↔ matcher.kind = f.kind) (hf : f ∈ s.2) :
    entriesOn f.kind number (ms.foldl (scanStep line number) s).1 = entriesOn f.kind number s.1 ∧
      f ∈ (ms.foldl (scanStep line number) s).2 := by
  induction ms generalizing s with
  | nil => exact ⟨rfl, hf⟩
  | cons matcher ms ih =>
    obtain ⟨hmatcher, hms⟩ := forall_mem_cons.mp hms
    rw [foldl_cons]
    rcases scanStep_cases line number s matcher with
      hsame | ⟨d, hd, hfree, hstep⟩
    · rw [hsame]
      exact ih hms hf
    · -- A matcher that fires is of another family, and so of another kind.
      have hkind : d.kind ≠ f.kind := by
        rw [(Matcher.of_finding? hd).1]
        exact fun hkind => hfree f (hmatcher.mpr hkind) hf
      rw [hstep]
      obtain ⟨hentries, hclaimed⟩ := ih (s := (Text.addUnique s.1 d, s.2 ++ matcher.family.toList))
        hms (mem_append_left _ hf)
      refine ⟨hentries.trans ?_, hclaimed⟩
      rw [entriesOn_addUnique, if_neg fun h => hkind h.1]

/-- On an unclaimed line, the first success of a family claims it. -/
theorem entriesOn_foldl_of_free
    (hms : ∀ matcher ∈ ms, matcher.family = some f ↔ matcher.kind = f.kind) (hf : f ∉ s.2)
    (hnone : entriesOn f.kind number s.1 = []) :
    entriesOn f.kind number (ms.foldl (scanStep line number) s).1 =
        (firstFinding? f line number ms).toList ∧ (f ∈ (ms.foldl (scanStep line number) s).2 ↔
        (firstFinding? f line number ms).isSome = true) := by
  induction ms generalizing s with
  | nil => exact ⟨hnone, by simp [hf, firstFinding?]⟩
  | cons matcher ms ih =>
    obtain ⟨hmatcher, hms⟩ := forall_mem_cons.mp hms
    rw [foldl_cons, firstFinding?, findSome?_cons]
    by_cases hfamily : matcher.family = some f
    · rw [if_pos hfamily]
      cases hd : matcher.finding? line number with
      | none =>
        rw [scanStep_of_none hd]
        exact ih hms hf hnone
      | some d =>
        have hplace := Matcher.of_finding? hd
        have hfree : ∀ g ∈ matcher.family, g ∉ s.2 := by
          intro g hg
          obtain rfl := Option.some.inj (hfamily.symm.trans hg)
          exact hf
        rw [scanStep_of_some hd hfree]
        obtain ⟨hentries, hclaimed⟩ := entriesOn_foldl_of_claimed line number
          (s := (Text.addUnique s.1 d, s.2 ++ matcher.family.toList)) hms (by simp [hfamily])
        refine ⟨hentries.trans ?_, by simp [hclaimed]⟩
        rw [entriesOn_addUnique, if_pos ⟨hplace.1.trans (hmatcher.mp hfamily), hplace.2⟩, hnone]
        rfl
    · rw [if_neg hfamily]
      rcases scanStep_cases line number s matcher with
        hsame | ⟨d, hd, -, hstep⟩
      · rw [hsame]
        exact ih hms hf hnone
      · have hkind : d.kind ≠ f.kind := by
          rw [(Matcher.of_finding? hd).1]
          exact fun hkind => hfamily (hmatcher.mpr hkind)
        rw [hstep]
        refine ih (s := (Text.addUnique s.1 d, s.2 ++ matcher.family.toList)) hms ?_ ?_
        · simpa [hf] using hfamily
        · rw [entriesOn_addUnique, if_neg fun h => hkind h.1, hnone]

end Families

/-- A family's findings on a line: those of its first success. -/
theorem entriesOn_scanLine (f : Family) (line : List Char) (number : Nat) :
    entriesOn f.kind number (scanLine line number).1 =
        (firstFinding? f line number matchers).toList ∧
      (f ∈ (scanLine line number).2 ↔ (firstFinding? f line number matchers).isSome = true) := by
  rw [scanLine_eq_foldl]
  exact entriesOn_foldl_of_free (fun _ h => family_eq_some_iff h f) not_mem_nil rfl

/-- Findings on a line have its number. -/
theorem line_of_mem_scanLine {line : List Char} {number : Nat} (h : d ∈ (scanLine line number).1) :
    d.line = number := by
  have hfold : ∀ (ms : List Matcher) (s : List DataDependency × List Family),
      (∀ d ∈ s.1, d.line = number) →
        ∀ d ∈ (ms.foldl (scanStep line number) s).1, d.line = number := by
    intro ms
    induction ms with
    | nil => exact fun s hs => hs
    | cons matcher ms ih =>
      intro s hs
      refine ih _ fun d hd => ?_
      exact ((mem_scanStep d).2 hd).elim (hs d) id
  rw [scanLine_eq_foldl] at h
  exact hfold matchers ([], []) (forall_mem_nil _) d h

/-- A matcher without a family reports whatever it finds. -/
theorem mem_scanLine_of_finding? {line : List Char} {number : Nat} {matcher : Matcher}
    (hmatcher : matcher ∈ matchers) (hfamily : matcher.family = none)
    (h : matcher.finding? line number = some d) : d ∈ (scanLine line number).1 := by
  have hkept : ∀ (ms : List Matcher) (s : List DataDependency × List Family), d ∈ s.1 →
      d ∈ (ms.foldl (scanStep line number) s).1 := by
    intro ms
    induction ms with
    | nil => exact fun s hs => hs
    | cons matcher ms ih => exact fun s hs => ih _ ((mem_scanStep d).1 hs)
  obtain ⟨before, after, hsplit⟩ := append_of_mem hmatcher
  rw [scanLine_eq_foldl, hsplit, foldl_append, foldl_cons, scanStep_of_some h (by simp [hfamily])]
  exact hkept after _ ((mem_addUnique _ d d).mpr (.inr rfl))

section Lines

variable {content line : List Char} {before after : List (List Char)}
  (h : Text.splitOn '\n' content = before ++ line :: after)
include h

/-- The numbered lines around a given one. -/
theorem numberedLines_eq : numberedLines content =
    before.zipIdx 1 ++ (line, before.length + 1) :: after.zipIdx (before.length + 2) := by
  rw [numberedLines, h, zipIdx_append, zipIdx_cons, Nat.add_comm 1]

/-- A number tells the line. -/
theorem eq_of_mem_numberedLines {entry : List Char × Nat} (hentry : entry ∈ numberedLines content)
    (hnumber : entry.2 = before.length + 1) : entry = (line, before.length + 1) := by
  rw [numberedLines_eq h, mem_append, mem_cons] at hentry
  rcases hentry with hbefore | hline | hafter
  · have := (mem_zipIdx hbefore).2.1
    omega
  · exact hline
  · have := (mem_zipIdx hafter).1
    omega

/-- The findings on a line are those of that line alone. -/
theorem entriesOn_scanLines (kind : DataKind) :
    entriesOn kind (before.length + 1) (scanLines content).found =
      entriesOn kind (before.length + 1) (scanLine line (before.length + 1)).1 := by
  have hother : ∀ lines : List (List Char × Nat), (∀ entry ∈ lines, entry.2 ≠ before.length + 1) →
      lines.flatMap (fun entry =>
        entriesOn kind (before.length + 1) (scanLine entry.1 entry.2).1) = [] := by
    intro lines hlines
    rw [flatMap_eq_nil_iff]
    intro entry hentry
    rw [eq_nil_iff_forall_not_mem]
    intro d hd
    obtain ⟨hfound, -, hline⟩ := mem_entriesOn.mp hd
    exact hlines entry hentry ((line_of_mem_scanLine hfound).symm.trans hline)
  have hbefore := hother (before.zipIdx 1) fun entry hentry => by
    have := (mem_zipIdx hentry).2.1
    omega
  have hafter := hother (after.zipIdx (before.length + 2)) fun entry hentry => by
    have := (mem_zipIdx hentry).1
    omega
  calc entriesOn kind (before.length + 1) (scanLines content).found
      = (numberedLines content).flatMap fun entry =>
          entriesOn kind (before.length + 1) (scanLine entry.1 entry.2).1 := by
        rw [scanLines, entriesOn, flatMap_map, filter_flatMap]
        rfl
    _ = entriesOn kind (before.length + 1) (scanLine line (before.length + 1)).1 := by
        rw [numberedLines_eq h, flatMap_append, hbefore, nil_append, flatMap_cons,
          hafter, append_nil]

/-- A line has a fetch after the first pass if it is claimed. -/
theorem mem_fetchLines_scanLines : before.length + 1 ∈ (scanLines content).fetchLines ↔
    .fetch ∈ (scanLine line (before.length + 1)).2 := by
  simp only [scanLines, mem_map, mem_filter]
  constructor
  · rintro ⟨_, ⟨⟨entry, hentry, rfl⟩, hclaimed⟩, hnumber⟩
    obtain rfl := eq_of_mem_numberedLines h hentry hnumber
    simpa using hclaimed
  · intro hclaimed
    have hentry : (line, before.length + 1) ∈ numberedLines content := by
      rw [numberedLines_eq h]
      simp
    exact ⟨_, ⟨⟨_, hentry, rfl⟩, by simpa using hclaimed⟩, rfl⟩

end Lines

/-- Findings of the first pass lie on lines of the text. -/
theorem line_of_mem_scanLines {content : List Char} (h : d ∈ (scanLines content).found) :
    1 ≤ d.line ∧ d.line ≤ content.count '\n' + 1 := by
  simp only [scanLines, flatMap_map, mem_flatMap] at h
  obtain ⟨entry, hentry, hd⟩ := h
  obtain ⟨hlow, hhigh, -⟩ := mem_zipIdx hentry
  rw [Text.length_splitOn] at hhigh
  have hline : d.line = entry.2 := line_of_mem_scanLine hd
  omega

section Wrapped

variable {content : List Char}

/-- A wrapped call begins on a line of the text. -/
theorem lineOf_le (m : Match) : lineOf content m ≤ content.count '\n' + 1 :=
  Nat.succ_le_succ ((take_sublist _ _).count_le _)

/-- A line has one fetch if it is noted, else none. -/
def CountsFetches (number : Nat) (findings : Findings) : Prop :=
  (entriesOn .fetch number findings.found).length = if number ∈ findings.fetchLines then 1 else 0

variable (content) in
/-- A wrapped fetch is added unless its line has a fetch. -/
theorem addWrappedFetch_cases (findings : Findings) (m : Match) :
    (lineOf content m ∈ findings.fetchLines ∧ addWrappedFetch content findings m = findings) ∨
    (lineOf content m ∉ findings.fetchLines ∧ addWrappedFetch content findings m =
      ⟨Text.addUnique findings.found ⟨.fetch, m.groupString 1, lineOf content m⟩,
        lineOf content m :: findings.fetchLines⟩) := by
  by_cases hline : lineOf content m ∈ findings.fetchLines
  · exact .inl ⟨hline, by simp [addWrappedFetch, hline]⟩
  · exact .inr ⟨hline, by simp [addWrappedFetch, hline]⟩

variable (content) in
/-- A wrapped fetch counts once, and not where one was found. -/
theorem addWrappedFetch_step {number : Nat} {findings : Findings} (m : Match)
    (h : CountsFetches number findings) :
    CountsFetches number (addWrappedFetch content findings m) ∧
      (number ∈ (addWrappedFetch content findings m).fetchLines ↔
        number ∈ findings.fetchLines ∨ lineOf content m = number) ∧ (number ∈ findings.fetchLines →
        entriesOn .fetch number (addWrappedFetch content findings m).found =
          entriesOn .fetch number findings.found) := by
  rcases addWrappedFetch_cases content findings m with ⟨hline, hsame⟩ | ⟨hline, hadd⟩
  · rw [hsame]
    refine ⟨h, ⟨.inl, ?_⟩, fun _ => rfl⟩
    rintro (hnumber | rfl)
    · exact hnumber
    · exact hline
  · rw [hadd]
    by_cases hnumber : lineOf content m = number
    · -- The line had no fetch, so the new one is its only one.
      rw [hnumber] at hline ⊢
      have hnone : entriesOn .fetch number findings.found = [] := by
        rw [CountsFetches, if_neg hline] at h
        exact length_eq_zero_iff.mp h
      refine ⟨?_, by simp, fun hmem => absurd hmem hline⟩
      rw [CountsFetches, entriesOn_addUnique, if_pos ⟨rfl, rfl⟩, hnone]
      simp [Text.addUnique]
    · have hkept : entriesOn .fetch number (Text.addUnique findings.found
          ⟨.fetch, m.groupString 1, lineOf content m⟩) =
            entriesOn .fetch number findings.found := by
        rw [entriesOn_addUnique, if_neg fun hplace => hnumber hplace.2]
      refine ⟨?_, by simp [hnumber, Ne.symm hnumber], fun _ => hkept⟩
      rw [CountsFetches, hkept, h]
      simp [Ne.symm hnumber]

/-- After the wrapped fetches, lines with a fetch had or began one. -/
theorem foldl_addWrappedFetch {number : Nat} {findings : Findings} (ms : List Match)
    (h : CountsFetches number findings) :
    CountsFetches number (ms.foldl (addWrappedFetch content) findings) ∧
      (number ∈ (ms.foldl (addWrappedFetch content) findings).fetchLines ↔
        number ∈ findings.fetchLines ∨ ∃ m ∈ ms, lineOf content m = number) ∧
      (number ∈ findings.fetchLines →
        entriesOn .fetch number (ms.foldl (addWrappedFetch content) findings).found =
          entriesOn .fetch number findings.found) := by
  induction ms generalizing findings with
  | nil => exact ⟨h, by simp, fun _ => rfl⟩
  | cons m ms ih =>
    obtain ⟨hcounts, hlines, hentries⟩ := addWrappedFetch_step content m h
    obtain ⟨hcountsAll, hlinesAll, hentriesAll⟩ := ih hcounts
    refine ⟨hcountsAll, ?_, fun hnumber => ?_⟩
    · rw [foldl_cons, hlinesAll, hlines, exists_mem_cons_iff, or_assoc]
    · rw [foldl_cons, hentriesAll (hlines.mpr (.inl hnumber)), hentries hnumber]

/-- Wrapped fetches leave other kinds. -/
theorem entriesOn_foldl_addWrappedFetch {kind : DataKind} (hkind : kind ≠ .fetch) (number : Nat)
    (ms : List Match) (findings : Findings) :
    entriesOn kind number (ms.foldl (addWrappedFetch content) findings).found =
      entriesOn kind number findings.found := by
  induction ms generalizing findings with
  | nil => rfl
  | cons m ms ih =>
    rw [foldl_cons, ih]
    rcases addWrappedFetch_cases content findings m with ⟨-, hsame⟩ | ⟨-, hadd⟩
    · rw [hsame]
    · rw [hadd, entriesOn_addUnique, if_neg fun hplace => hkind hplace.1.symm]

/-- Replacing a finding leaves other kinds as they are. -/
theorem entriesOn_replaceFirst {kind : DataKind} {old new : DataDependency} (hold : old.kind ≠ kind)
    (hnew : new.kind ≠ kind) (number : Nat) (found : List DataDependency) :
    entriesOn kind number (replaceFirst old new found) = entriesOn kind number found := by
  induction found with
  | nil => rfl
  | cons d rest ih =>
    rw [replaceFirst]
    split
    · next hd => simp [entriesOn, hd, hold, hnew]
    · unfold entriesOn at ih ⊢
      rw [filter_cons, filter_cons, ih]

/-- The kind and the line of a finding. -/
def place (d : DataDependency) : DataKind × Nat :=
  (d.kind, d.line)

/-- Replacing a finding in its place leaves all places. -/
theorem map_place_replaceFirst {old new : DataDependency} (h : place new = place old)
    (found : List DataDependency) : (replaceFirst old new found).map place = found.map place := by
  induction found with
  | nil => rfl
  | cons d rest ih =>
    rw [replaceFirst]
    split
    · next hd => rw [map_cons, map_cons, h, hd]
    · rw [map_cons, map_cons, ih]

variable (content) in
/-- A wrapped query is replaced in place, or added. -/
theorem addWrappedQuery_cases (found : List DataDependency) (m : Match) :
    ∃ source, addWrappedQuery content found m =
        replaceFirst ⟨.useQuery, unknownQuery, lineOf content m⟩
          ⟨.useQuery, source, lineOf content m⟩ found ∨ addWrappedQuery content found m =
        Text.addUnique found ⟨.useQuery, source, lineOf content m⟩ := by
  refine ⟨m.groupString 1, ?_⟩
  unfold addWrappedQuery
  dsimp only
  split
  · exact .inl rfl
  · exact .inr rfl

/-- Wrapped queries leave other kinds. -/
theorem entriesOn_foldl_addWrappedQuery {kind : DataKind} (hkind : kind ≠ .useQuery) (number : Nat)
    (ms : List Match) (found : List DataDependency) :
    entriesOn kind number (ms.foldl (addWrappedQuery content) found) =
      entriesOn kind number found := by
  induction ms generalizing found with
  | nil => rfl
  | cons m ms ih =>
    rw [foldl_cons, ih]
    obtain ⟨source, hreplaced | hadded⟩ := addWrappedQuery_cases content found m
    · rw [hreplaced, entriesOn_replaceFirst (Ne.symm hkind) (Ne.symm hkind)]
    · rw [hadded, entriesOn_addUnique, if_neg fun hplace => hkind hplace.1.symm]

variable (content) in
/-- A wrapped query leaves no place empty, and is on a line. -/
theorem place_addWrappedQuery (found : List DataDependency) (m : Match) (p : DataKind × Nat) :
    (p ∈ found.map place → p ∈ (addWrappedQuery content found m).map place) ∧
      (p ∈ (addWrappedQuery content found m).map place →
        p ∈ found.map place ∨ (1 ≤ p.2 ∧ p.2 ≤ content.count '\n' + 1)) := by
  obtain ⟨source, hreplaced | hadded⟩ := addWrappedQuery_cases content found m
  · rw [hreplaced, map_place_replaceFirst]
    · exact ⟨id, .inl⟩
    · rfl
  · rw [hadded]
    refine ⟨fun hp => ?_, fun hp => ?_⟩
    · obtain ⟨d, hd, rfl⟩ := mem_map.mp hp
      exact mem_map_of_mem ((mem_addUnique _ _ d).mpr (.inl hd))
    · obtain ⟨d, hd, rfl⟩ := mem_map.mp hp
      rcases (mem_addUnique _ _ d).mp hd with hd | rfl
      · exact .inl (mem_map_of_mem hd)
      · exact .inr ⟨Nat.succ_pos _, lineOf_le m⟩

variable (content) in
/-- Wrapped queries leave no place empty, and are on lines. -/
theorem place_foldl_addWrappedQuery (ms : List Match) (found : List DataDependency)
    (p : DataKind × Nat) :
    (p ∈ found.map place → p ∈ (ms.foldl (addWrappedQuery content) found).map place) ∧
      (p ∈ (ms.foldl (addWrappedQuery content) found).map place →
        p ∈ found.map place ∨ (1 ≤ p.2 ∧ p.2 ≤ content.count '\n' + 1)) := by
  induction ms generalizing found with
  | nil => exact ⟨id, .inl⟩
  | cons m ms ih =>
    obtain ⟨hkept, hnew⟩ := ih (addWrappedQuery content found m)
    obtain ⟨hkeptHere, hnewHere⟩ := place_addWrappedQuery content found m p
    exact ⟨fun hp => hkept (hkeptHere hp), fun hp => (hnew hp).elim hnewHere .inr⟩

/-- Wrapped fetches come to lines of the text only. -/
theorem line_of_mem_foldl_addWrappedFetch (ms : List Match) (findings : Findings)
    (h : ∀ d ∈ findings.found, 1 ≤ d.line ∧ d.line ≤ content.count '\n' + 1) :
    ∀ d ∈ (ms.foldl (addWrappedFetch content) findings).found,
      1 ≤ d.line ∧ d.line ≤ content.count '\n' + 1 := by
  induction ms generalizing findings with
  | nil => exact h
  | cons m ms ih =>
    refine ih _ fun d hd => ?_
    rcases addWrappedFetch_cases content findings m with ⟨-, hsame⟩ | ⟨-, hadd⟩
    · rw [hsame] at hd
      exact h d hd
    · rw [hadd] at hd
      rcases (mem_addUnique _ _ d).mp hd with hd | rfl
      · exact h d hd
      · exact ⟨Nat.succ_pos _, lineOf_le m⟩

end Wrapped

/-- A fetch is found on a line: by one of the two matchers of the family, or as a wrapped one that
begins there. -/
def HasFetch (content line : List Char) (number : Nat) : Prop :=
  fetchLiteral.occursIn line = true ∨ fetchDynamic.occursIn line = true ∨
    ∃ m ∈ wrappedFetch.findAll content, Text.OnLine content m.offset number

/-- The matcher with a literal comes first. -/
theorem firstFinding?_fetch (line : List Char) (number : Nat) :
    firstFinding? .fetch line number matchers =
      ((fetchLiteral.find? line).map fun m => ⟨.fetch, m.groupString 1, number⟩).or
        ((fetchDynamic.find? line).map fun _ => ⟨.fetch, "(dynamic URL)", number⟩) := by
  cases hliteral : fetchLiteral.find? line with
  | some m => simp [firstFinding?, matchers, Matcher.finding?, hliteral, byLiteral]
  | none =>
    cases hdynamic : fetchDynamic.find? line with
    | some m => simp [firstFinding?, matchers, Matcher.finding?, hliteral, hdynamic, always]
    | none => simp [firstFinding?, matchers, Matcher.finding?, hliteral, hdynamic]

/-- The findings of the first two passes. -/
def fetched (content : List Char) : Findings :=
  (wrappedFetch.findAll content).foldl (addWrappedFetch content) (scanLines content)

/-- The findings of all passes before they are put in order. -/
def collected (content : List Char) : List DataDependency :=
  (wrappedQuery.findAll content).foldl (addWrappedQuery content) (fetched content).found

/-- Ordering the findings keeps those of a kind on a line. -/
theorem entriesOn_extract_perm (kind : DataKind) (number : Nat) (content : List Char) :
    (entriesOn kind number (extract content)).Perm (entriesOn kind number (collected content)) :=
  (mergeSort_perm (collected content) _).filter _

/-- The fetches on a line are those of the first two passes. -/
theorem entriesOn_fetch_extract_perm (number : Nat) (content : List Char) :
    (entriesOn .fetch number (extract content)).Perm
      (entriesOn .fetch number (fetched content).found) := by
  have hqueries : entriesOn .fetch number (collected content) =
      entriesOn .fetch number (fetched content).found :=
    entriesOn_foldl_addWrappedQuery (by decide) _ _ _
  rw [← hqueries]
  exact entriesOn_extract_perm .fetch number content

/-- All findings lie on lines of the text. -/
theorem line_of_mem_extract {content : List Char} (h : d ∈ extract content) :
    1 ≤ d.line ∧ d.line ≤ content.count '\n' + 1 := by
  have hcollected : place d ∈ (collected content).map place :=
    mem_map_of_mem ((mergeSort_perm (collected content) _).mem_iff.mp h)
  rcases (place_foldl_addWrappedQuery content _ _ (place d)).2 hcollected with hfetched | hline
  · obtain ⟨other, hother, hplace⟩ := mem_map.mp hfetched
    have hline : other.line = d.line := congrArg Prod.snd hplace
    rw [← hline]
    exact line_of_mem_foldl_addWrappedFetch _ _ (fun _ => line_of_mem_scanLines) other hother
  · exact hline

/-- What is found on a line of a text. -/
structure FoundOn (content line : List Char) (number : Nat) (found : List DataDependency) :
    Prop where
  fetch : HasFetch content line number → ∃ d, entriesOn .fetch number found = [d]
  noFetch : ¬ HasFetch content line number → entriesOn .fetch number found = []
  /-- A literal address is shown. -/
  literal : ∀ m, fetchLiteral.find? line = some m →
    ∀ d ∈ entriesOn .fetch number found, d.source = m.groupString 1
  axios : (entriesOn .axios number found).length ≤ 1
  /-- Matchers without a family do not stand in each other's way. -/
  reported : ∀ matcher ∈ matchers, matcher.family = none → matcher.pattern.occursIn line = true →
    ∃ d ∈ found, d.kind = matcher.kind ∧ d.line = number

section Line

variable {content line : List Char} {before after : List (List Char)}
  (h : Text.splitOn '\n' content = before ++ line :: after)
include h

/-- After the first pass, a line has the fetches of early matchers. -/
theorem scanLines_fetch : entriesOn .fetch (before.length + 1) (scanLines content).found =
        (firstFinding? .fetch line (before.length + 1) matchers).toList ∧
      (before.length + 1 ∈ (scanLines content).fetchLines ↔
        (firstFinding? .fetch line (before.length + 1) matchers).isSome = true) := by
  obtain ⟨hentries, hclaimed⟩ := entriesOn_scanLine .fetch line (before.length + 1)
  exact ⟨(entriesOn_scanLines h .fetch).trans hentries, (mem_fetchLines_scanLines h).trans hclaimed⟩

/-- Fetches are counted after the first pass. -/
theorem countsFetches_scanLines : CountsFetches (before.length + 1) (scanLines content) := by
  obtain ⟨hentries, hnoted⟩ := scanLines_fetch h
  unfold CountsFetches
  simp only [hentries, hnoted]
  cases firstFinding? .fetch line (before.length + 1) matchers <;> rfl

/-- The second pass counts fetches and keeps earlier ones. -/
theorem fetched_fetch : CountsFetches (before.length + 1) (fetched content) ∧
      (before.length + 1 ∈ (fetched content).fetchLines ↔
        before.length + 1 ∈ (scanLines content).fetchLines ∨
          ∃ m ∈ wrappedFetch.findAll content, lineOf content m = before.length + 1) ∧
      (before.length + 1 ∈ (scanLines content).fetchLines →
        entriesOn .fetch (before.length + 1) (fetched content).found =
          entriesOn .fetch (before.length + 1) (scanLines content).found) :=
  foldl_addWrappedFetch _ (countsFetches_scanLines h)

/-- After the second pass, lines with a fetch are noted. -/
theorem mem_fetchLines_iff_hasFetch : before.length + 1 ∈ (fetched content).fetchLines ↔
      HasFetch content line (before.length + 1) := by
  have hwrapped : (∃ m ∈ wrappedFetch.findAll content, lineOf content m = before.length + 1) ↔
      ∃ m ∈ wrappedFetch.findAll content, Text.OnLine content m.offset (before.length + 1) := by
    refine exists_congr fun m => and_congr_right fun hm => ⟨fun hline => ?_, fun hline => ?_⟩
    · rw [← hline]
      exact Text.onLine_count (Nat.le_of_lt (Pattern.offset_lt_of_mem_findAll hm))
    · exact (Text.number_of_onLine hline).symm
  have hearly : (firstFinding? .fetch line (before.length + 1) matchers).isSome = true ↔
      fetchLiteral.occursIn line = true ∨ fetchDynamic.occursIn line = true := by
    rw [firstFinding?_fetch, Option.isSome_or, Option.isSome_map, Option.isSome_map,
      Bool.or_eq_true]
    rfl
  rw [(fetched_fetch h).2.1, (scanLines_fetch h).2, hwrapped, hearly, or_assoc]
  rfl

/-- A literal address claims its line for good. -/
theorem source_of_fetchLiteral {m : Match} (hm : fetchLiteral.find? line = some m)
    (hd : d ∈ entriesOn .fetch (before.length + 1) (extract content)) :
    d.source = m.groupString 1 := by
  have hfirst : firstFinding? .fetch line (before.length + 1) matchers =
      some ⟨.fetch, m.groupString 1, before.length + 1⟩ := by
    rw [firstFinding?_fetch, hm]
    rfl
  obtain ⟨hentries, hnoted⟩ := scanLines_fetch h
  have hkept := (fetched_fetch h).2.2 (hnoted.mpr (by rw [hfirst]; rfl))
  rw [(entriesOn_fetch_extract_perm _ content).mem_iff, hkept, hentries, hfirst] at hd
  obtain rfl := mem_singleton.mp hd
  rfl

/-- The second family's requests are of the first pass. -/
theorem length_axios_le : (entriesOn .axios (before.length + 1) (extract content)).length ≤ 1 := by
  have haxios : entriesOn .axios (before.length + 1) (collected content) =
      (firstFinding? .axios line (before.length + 1) matchers).toList :=
    calc entriesOn .axios (before.length + 1) (collected content)
        = entriesOn .axios (before.length + 1) (scanLines content).found := by
          rw [collected, entriesOn_foldl_addWrappedQuery (by decide), fetched,
            entriesOn_foldl_addWrappedFetch (by decide)]
      _ = entriesOn .axios (before.length + 1) (scanLine line (before.length + 1)).1 :=
          entriesOn_scanLines h .axios
      _ = (firstFinding? .axios line (before.length + 1) matchers).toList :=
          (entriesOn_scanLine .axios line (before.length + 1)).1
  rw [(entriesOn_extract_perm .axios _ content).length_eq, haxios]
  cases firstFinding? .axios line (before.length + 1) matchers <;> simp

/-- A finding without family is reported in its place. -/
theorem exists_reported {matcher : Matcher} (hmatcher : matcher ∈ matchers)
    (hfamily : matcher.family = none) (hoccurs : matcher.pattern.occursIn line = true) :
    ∃ d ∈ extract content, d.kind = matcher.kind ∧ d.line = before.length + 1 := by
  obtain ⟨m, hm⟩ := Option.isSome_iff_exists.mp hoccurs
  have hfinding : matcher.finding? line (before.length + 1) =
      some ⟨matcher.kind, matcher.describe m line, before.length + 1⟩ := by
    rw [Matcher.finding?, hm, Option.map_some]
  have hkind : matcher.kind ≠ .fetch := by
    intro hkind
    have := (family_eq_some_iff hmatcher .fetch).mpr hkind
    rw [hfamily] at this
    cases this
  have hscanned := mem_entriesOn.mpr ⟨mem_scanLine_of_finding? hmatcher hfamily hfinding, rfl, rfl⟩
  have hfetched : entriesOn matcher.kind (before.length + 1) (fetched content).found =
      entriesOn matcher.kind (before.length + 1) (scanLines content).found :=
    entriesOn_foldl_addWrappedFetch hkind _ _ _
  rw [← entriesOn_scanLines h, ← hfetched] at hscanned
  have hcollected := (place_foldl_addWrappedQuery content (wrappedQuery.findAll content) _ _).1
    (mem_map_of_mem (mem_entriesOn.mp hscanned).1)
  obtain ⟨d, hd, hplace⟩ := mem_map.mp hcollected
  exact ⟨d, (mergeSort_perm (collected content) _).mem_iff.mpr hd,
    congrArg Prod.fst hplace, congrArg Prod.snd hplace⟩

/-- Every line has the findings that it should have. -/
theorem foundOn_extract : FoundOn content line (before.length + 1) (extract content) := by
  have hcounts := (fetched_fetch h).1
  rw [CountsFetches, ← (entriesOn_fetch_extract_perm _ content).length_eq] at hcounts
  refine ⟨fun hfetch => ?_, fun hnone => ?_, fun m hm d hd => source_of_fetchLiteral h hm hd,
    length_axios_le h, fun matcher => exists_reported h⟩
  · rw [if_pos ((mem_fetchLines_iff_hasFetch h).mpr hfetch)] at hcounts
    exact length_eq_one_iff.mp hcounts
  · rw [if_neg fun hmem => hnone ((mem_fetchLines_iff_hasFetch h).mp hmem)] at hcounts
    exact length_eq_zero_iff.mp hcounts

end Line

/-- Data accesses come in the order of their lines, which are lines of the text, and every line has
the findings it should have. -/
theorem data_accesses_placed (content : List Char) :
    (extract content).Pairwise (fun a b => a.line ≤ b.line) ∧
    (∀ d ∈ extract content, 1 ≤ d.line ∧ d.line ≤ content.count '\n' + 1) ∧
    ∀ number, 1 ≤ number → number ≤ content.count '\n' + 1 →
      ∃ line, (Text.splitOn '\n' content)[number - 1]? = some line ∧
        FoundOn content line number (extract content) := by
  refine ⟨pairwise_mergeSort_of_key _ DataDependency.line (fun _ _ => decide_eq_true_iff) _,
    fun d => line_of_mem_extract, fun number hlow hhigh => ?_⟩
  obtain ⟨number, rfl⟩ := Nat.exists_eq_add_of_le' hlow
  rw [Nat.add_sub_cancel]
  have hnumber : number < (Text.splitOn '\n' content).length := by
    rw [Text.length_splitOn]
    omega
  refine ⟨_, List.getElem?_eq_getElem hnumber, ?_⟩
  have hsplit := (List.take_append_drop number (Text.splitOn '\n' content)).symm
  rw [List.drop_eq_getElem_cons hnumber] at hsplit
  have hfound := foundOn_extract hsplit
  rwa [List.length_take, Nat.min_eq_left (Nat.le_of_lt hnumber)] at hfound

/-- Two fetches, of which the second is wrapped. -/
def wrappedCalls : List Char :=
  "fetch(`/a`)\nfetch(\n  '/b')".toList

/-- A wrapped fetch is the only one on the line where it begins. -/
theorem data_accesses_placed_wrappedCalls : (1 ≤ 2 ∧ 2 ≤ wrappedCalls.count '\n' + 1) ∧
      ∃ d, entriesOn .fetch 2 (extract wrappedCalls) = [d] := by
  have hoffsets : (wrappedFetch.findAll wrappedCalls).map Match.offset = [0, 12] := rfl
  have hbegins : ∃ m ∈ wrappedFetch.findAll wrappedCalls, Text.OnLine wrappedCalls m.offset 2 := by
    obtain ⟨m, hm, hoffset⟩ : ∃ m ∈ wrappedFetch.findAll wrappedCalls, m.offset = 12 :=
      List.mem_map.mp (hoffsets ▸ by simp)
    exact ⟨m, hm, hoffset ▸ Text.onLine_count (by decide : 12 ≤ wrappedCalls.length)⟩
  obtain ⟨-, -, hfound⟩ := data_accesses_placed wrappedCalls
  obtain ⟨line, -, hline⟩ := hfound 2 (by decide) (by decide)
  exact ⟨by decide, hline.fetch (.inr (.inr hbegins))⟩

end Source.DataAccess

end SiteAtlas
