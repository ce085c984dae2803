import SiteAtlas.Proofs.ActionTails

/-!
# Imports as last segments of a path

Whether an import ends the path of an action file is tested on texts, and means a test on rows of
segments: no import is found within a segment.
-/

namespace SiteAtlas

open List

/-- A text ends a path if its segments are the last ones. -/
theorem splitOn_suffix_iff {path tail : List Char} :
    Text.splitOn '/' tail <:+ Text.splitOn '/' path ↔
      ∃ above, Above above ∧ path = above ++ tail := by
  constructor
  · rintro ⟨front, hfront⟩
    have hpath := Text.join_splitOn '/' path
    rw [← hfront] at hpath
    by_cases hne : front = []
    · rw [hne, nil_append, Text.join_splitOn] at hpath
      exact ⟨[], .inl rfl, hpath.symm⟩
    · rw [Text.join_append _ hne (Text.splitOn_ne_nil '/' tail), Text.join_splitOn] at hpath
      exact ⟨_, .inr ⟨_, rfl⟩, hpath.symm⟩
  · rintro ⟨_, rfl | ⟨front, rfl⟩, rfl⟩
    · exact suffix_rfl
    · rw [append_assoc, singleton_append, Text.splitOn_append_cons]
      exact suffix_append _ _

/-- A final `/index` is a segment of its own. -/
theorem splitOn_append_index (body : List Char) :
    Text.splitOn '/' (body ++ "/index".toList) = Text.splitOn '/' body ++ ["index".toList] :=
  Text.splitOn_append_cons '/' body "index".toList

/-- A final index name is a segment after others. -/
theorem eq_append_index_iff {path : List Char} {front : List (List Char)} :
    front ≠ [] ∧ Text.splitOn '/' path = front ++ ["index".toList] ↔
      ∃ body, path = body ++ "/index".toList ∧ front = Text.splitOn '/' body := by
  constructor
  · rintro ⟨hne, hpath⟩
    have hbody : path = Text.join ['/'] front ++ "/index".toList := by
      rw [← Text.join_splitOn '/' path, hpath, Text.join_append _ hne (by simp), append_assoc]
      rfl
    refine ⟨_, hbody, (append_left_inj ["index".toList]).mp ?_⟩
    rw [← splitOn_append_index, ← hbody, hpath]
  · rintro ⟨body, rfl, rfl⟩
    exact ⟨Text.splitOn_ne_nil '/' body, splitOn_append_index body⟩

/-- A source suffix is dropped at the end or before a final break. -/
inductive DropsSuffix (cs : List Char) : List Char → Prop
  | suffix {body tail : List Char} {extension : String} (mem : extension ∈ Tree.sourceSuffixes)
      (last : AfterLastLine tail) (eq : cs = body ++ (extension.toList ++ tail)) :
      DropsSuffix cs (body ++ tail)
  | whole (none : ¬ EndsInSuffix cs) : DropsSuffix cs cs

/-- Dropping a suffix is what the relation says. -/
theorem dropsSuffix_iff {cs rest : List Char} :
    DropsSuffix (slashed cs) rest ↔ withoutSuffix cs = rest := by
  have hwithout : withoutSuffix cs = finalSuffix.eraseAll (slashed cs) := rfl
  constructor
  · rintro (⟨hmem, hlast, hcs⟩ | hnone)
    · rw [hwithout, hcs, eraseAll_finalSuffix _ hmem hlast]
    · exact eraseAll_finalSuffix_eq_self hnone
  · rintro rfl
    by_cases hends : EndsInSuffix (slashed cs)
    · obtain ⟨body, suffix, hmem, tail, hlast, hcs⟩ := hends
      rw [hwithout, hcs, eraseAll_finalSuffix body hmem hlast]
      exact .suffix hmem hlast rfl
    · rw [hwithout, eraseAll_finalSuffix_eq_self hends]
      exact .whole hends

/-- What is left of a specifier: what follows the first key that it begins with or, if none, the
specifier with slashes for backslashes and without a source suffix. -/
inductive Leaves (keys : List String) (specifier : List Char) : List Char → Prop
  | alias {before after : List String} {key : String} {rest : List Char}
      (keys_eq : keys = before ++ key :: after) (eq : specifier = key.toList ++ rest)
      (first : ∀ other ∈ before, ¬ other.toList <+: specifier) : Leaves keys specifier rest
  | plain {rest : List Char} (none : ∀ key ∈ keys, ¬ key.toList <+: specifier)
      (drops : DropsSuffix (slashed specifier) rest) : Leaves keys specifier rest

/-- What is compared is what the relation leaves. -/
theorem leaves_iff {table : AliasTable} {specifier rest : List Char} :
    Leaves table.openKeys specifier rest ↔ comparedTail table specifier = rest := by
  have hnot (key : String) :
      (!key.toList.isPrefixOf specifier) = true ↔ ¬ key.toList <+: specifier := by
    rw [Bool.not_eq_true', ← isPrefixOf_iff_prefix, Bool.not_eq_true]
  unfold comparedTail
  constructor
  · rintro (⟨hkeys, heq, hfirst⟩ | ⟨hnone, hdrops⟩)
    · rw [find?_eq_some_iff_append.mpr ⟨by simp [heq], _, _, hkeys, by simpa only [hnot]⟩]
      simp [heq, ← String.length_toList]
    · rw [find?_eq_none.mpr (by simpa using hnone)]
      exact dropsSuffix_iff.mp hdrops
  · rintro rfl
    cases hfind : table.openKeys.find? fun key => key.toList.isPrefixOf specifier with
    | none => exact .plain (by simpa using hfind) (dropsSuffix_iff.mpr rfl)
    | some key =>
      obtain ⟨hkey, before, after, hkeys, hfirst⟩ := find?_eq_some_iff_append.mp hfind
      obtain ⟨rest, heq⟩ := isPrefixOf_iff_prefix.mp hkey
      refine .alias hkeys ?_ (by simpa only [hnot] using hfirst)
      simp [← heq, ← String.length_toList]

/-- An import that is not relative means an action file if something is left of it between slashes,
and its segments are the last ones of the file's path without suffix, or of that without an index
name that is not its only segment. Only directories stand before it then. -/
theorem matchesAction_iff_segments {table : AliasTable} {specifier rest tail path : List Char}
    {action : ServerActionFile} (importer : Path) (hplain : '\\' ∉ action.relativePath.toList)
    (hspecifier : specifier.head? ≠ some '.') (hrest : Leaves table.openKeys specifier rest)
    (htail : Text.trimWhile (· == '/') rest = tail)
    (hpath : DropsSuffix action.relativePath.toList path) :
    (matchesAction table specifier action importer = true ↔ tail ≠ [] ∧
      (Text.splitOn '/' tail <:+ Text.splitOn '/' path ∨
        ∃ front, (front ≠ [] ∧ Text.splitOn '/' path = front ++ ["index".toList]) ∧
          Text.splitOn '/' tail <:+ front)) ∧
    (matchesAction table specifier action importer = true →
      ∃ above, (above = [] ∨ above.getLast? = some '/') ∧
        (path = above ++ tail ∨ path = above ++ tail ++ "/index".toList)) := by
  have hrelative : AliasTable.isRelative specifier = false := by
    rw [Bool.eq_false_iff]
    intro hdot
    obtain ⟨cs, rfl⟩ := isPrefixOf_iff_prefix.mp hdot
    exact hspecifier rfl
  rw [← slashed_of_not_mem hplain, dropsSuffix_iff] at hpath
  have hmatches : matchesAction table specifier action importer = true ↔ tail ≠ [] ∧
      ∃ above, Above above ∧ (path = above ++ tail ∨ path = above ++ tail ++ "/index".toList) := by
    rw [matchesAction, hrelative, leaves_iff.mp hrest, ← hpath]
    exact tailMatches_iff_trimmed htail
  refine ⟨hmatches.trans (and_congr_right fun _ => ?_), fun h => ?_⟩
  · simp only [and_or_left, exists_or, ← splitOn_suffix_iff, eq_append_index_iff]
    refine or_congr_right ⟨?_, ?_⟩
    · rintro ⟨above, habove, hindex⟩
      exact ⟨_, ⟨_, hindex, rfl⟩, splitOn_suffix_iff.mpr ⟨above, habove, rfl⟩⟩
    · rintro ⟨_, ⟨body, hindex, rfl⟩, hsuffix⟩
      obtain ⟨above, habove, rfl⟩ := splitOn_suffix_iff.mp hsuffix
      exact ⟨above, habove, hindex⟩
  · obtain ⟨-, above, habove, hends⟩ := hmatches.mp h
    exact ⟨above, habove.imp_right fun ⟨front, hfront⟩ => by simp [hfront], hends⟩

/-- Two keys that begin alike, the longer one first. -/
def nestedAliases : AliasTable where
  configFile := none
  aliases := [⟨"@/lib/", ⟨false, []⟩⟩, ⟨"@/", ⟨false, []⟩⟩]

/-- The actions of a gallery. -/
def galleryActions : ServerActionFile where
  filePath := "/fair/lib/forms/index.ts"
  relativePath := "lib/forms/index.ts"

/-- The statement at doubled slashes. -/
theorem matchesAction_iff_segments_galleryActions :
    '\\' ∉ galleryActions.relativePath.toList ∧ "@/lib//forms/".toList.head? ≠ some '.' ∧
      Leaves nestedAliases.openKeys "@/lib//forms/".toList "/forms/".toList ∧
      DropsSuffix galleryActions.relativePath.toList "lib/forms/index".toList ∧
      matchesAction nestedAliases "@/lib//forms/".toList galleryActions ⟨.slash, []⟩ = true := by
  have hplain : '\\' ∉ galleryActions.relativePath.toList := by decide
  have hrest : Leaves nestedAliases.openKeys "@/lib//forms/".toList "/forms/".toList :=
    .alias rfl rfl (forall_mem_nil _)
  have hpath : DropsSuffix galleryActions.relativePath.toList "lib/forms/index".toList :=
    @DropsSuffix.suffix _ "lib/forms/index".toList [] ".ts" (by decide) (.inl rfl) rfl
  refine ⟨hplain, by decide, hrest, hpath, ?_⟩
  refine (matchesAction_iff_segments _ hplain (by decide) hrest rfl hpath).1.mpr
    ⟨by decide, .inr ⟨["lib".toList, "forms".toList], ⟨by decide, by decide⟩, ?_⟩⟩
  exact ⟨["lib".toList], by decide⟩

end SiteAtlas
