import SiteAtlas.Proofs.AliasResolution
import SiteAtlas.Proofs.TypeArguments

/-!
# Exact listings

A listing holds just the source files below its directory that its rule takes in, in order. There
is none if a path that is looked up for it is too long.
-/

namespace SiteAtlas.Tree

open List Pattern

/-- A name has a source suffix after something else. -/
theorem suffixOf_mem_iff {name : String} : suffixOf name ∈ sourceSuffixes ↔
    ∃ stem ≠ "", ∃ extension ∈ sourceSuffixes, name = stem ++ extension := by
  constructor
  · intro h
    have hsuffix : (splitSuffix name.toList).2 ≠ [] := by
      intro hnone
      rw [suffixOf, hnone] at h
      exact absurd h (by decide)
    refine ⟨stemOf name, ?_, _, h, ?_⟩
    · simpa [stemOf] using stem_ne_nil_of_suffix hsuffix
    · rw [← String.toList_inj]
      simp [stemOf, suffixOf, splitSuffix_append]
  · rintro ⟨stem, hstem, extension, hextension, rfl⟩
    obtain ⟨rest, hrest, hfree, -⟩ := exists_cons_of_mem_sourceSuffixes hextension (.inl rfl)
    have hlength := one_lt_length_sourceSuffix hextension
    have hpos : 0 < stem.toList.length := length_pos_iff.mpr (by simpa using hstem)
    rw [append_nil] at hrest
    have hlast : (rest.reverse ++ '.' :: stem.toList.reverse).takeWhile (· != '.') =
        rest.reverse := by
      rw [takeWhile_append_of_pos (by grind), takeWhile_cons_of_neg (by simp), append_nil]
    have hsplit : (splitSuffix (stem.toList ++ '.' :: rest)).2 = '.' :: rest := by
      unfold splitSuffix
      simp only [reverse_append, reverse_cons, append_assoc, singleton_append, hlast]
      grind
    rwa [suffixOf, String.toList_append, hrest, hsplit, ← hrest, String.ofList_toList]

/-- What stands before the source suffix of a test. -/
def testKinds : List String :=
  [".test", ".spec", ".stories"]

/-- The end of a test file is read. -/
theorem reads_testFile {kind extension : String} (hkind : kind ∈ testKinds)
    (hextension : extension ∈ sourceSuffixes) :
    testFile.Reads (kind.toList ++ extension.toList) [] [] := by
  have hnone : (optional (char 'x')).Reads [] [] [] :=
    ((show (char 'x').Begins (· == 'x') from fun x hx => hx).failsAt rfl).optional
  have hend : (chain [lastLineEnd]).Reads [] [] [] :=
    (reads_lastLineEnd (.inl rfl)).seq (reads_empty _)
  have hletter (letter : Char) (h : "jt".toList.contains letter = true) {more : List Char}
      (hmore : (optional (char 'x')).Reads more [] []) :
      (chain [char '.', oneOf "jt", char 's', optional (char 'x'), lastLineEnd]).Reads
        ('.' :: letter :: 's' :: (more ++ [])) [] [] :=
    (reads_char '.' _).seq ((reads_one h _).seq ((reads_char 's' _).seq (hmore.seq hend)))
  have hlast : (chain [char '.', oneOf "jt", char 's', optional (char 'x'), lastLineEnd]).Reads
      extension.toList [] [] := by
    simp only [sourceSuffixes, mem_cons, not_mem_nil, or_false] at hextension
    rcases hextension with rfl | rfl | rfl | rfl
    · exact hletter 't' rfl (reads_char 'x' _).optional
    · exact hletter 't' rfl hnone
    · exact hletter 'j' rfl (reads_char 'x' _).optional
    · exact hletter 'j' rfl hnone
  refine Reads.of_parts ?_
  simp only [testKinds, mem_cons, not_mem_nil, or_false] at hkind
  rcases hkind with rfl | rfl | rfl
  · exact (reads_char '.' _).seq ((reads_text "test" _).either_left.seq hlast)
  · exact (reads_char '.' _).seq (((reads_text "spec" _).either_left.either_right
      ((opens_text "test").failsAt (by simp))).seq hlast)
  · exact (reads_char '.' _).seq ((((reads_text "stories" _).either_right
      ((opens_text "spec").failsAt (by simp))).either_right
        ((opens_text "test").failsAt (by simp))).seq hlast)

/-- What a test file's ending is read as. -/
theorem exists_of_reaches_testFile {c d : Cursor} (h : testFile.Reaches c d) :
    ∃ kind ∈ testKinds, ∃ extension ∈ sourceSuffixes, ∃ tail, AfterLastLine tail ∧
      c.after = kind.toList ++ extension.toList ++ tail := by
  obtain ⟨e, hbody, hend⟩ := h
  obtain ⟨_, hpast, _, more, rfl, ⟨_, _, rfl, ⟨_, _, rfl, ⟨_, _, rfl, ⟨_, name, rfl, hdot, hname⟩,
    hpoint⟩, letter, hletter, rfl⟩, hs⟩, n, hn, hmore⟩ := exists_spells_of_reaches hbody
  rw [spells_char.mp hdot, spells_char.mp hpoint, spells_char.mp hs] at hpast
  have hname : String.ofList ('.' :: name) ∈ testKinds := by
    rcases hname with h | h | h <;> rw [spells_text.mp h] <;> decide
  have hmore : more = [] ∨ more = ['x'] := by
    have hn := hn 1 rfl
    rcases n with _ | _ | n
    · exact .inl hmore
    · obtain ⟨_, _, rfl, hx, rfl⟩ := hmore
      exact .inr (by rw [spells_char.mp hx, append_nil])
    · omega
  have hextension : String.ofList ('.' :: letter :: 's' :: more) ∈ sourceSuffixes := by
    have hletter : letter = 'j' ∨ letter = 't' := by simpa using hletter
    rcases hletter with rfl | rfl <;> rcases hmore with rfl | rfl <;> decide
  exact ⟨_, hname, _, hextension, e.after, afterLastLine_of_reaches hend, by simp [hpast.after]⟩

/-- A source file is a test by what is before its suffix. -/
theorem isTestName_iff {name : String} (h : suffixOf name ∈ sourceSuffixes) :
    isTestName name = true ↔ ∃ front, ∃ kind ∈ testKinds, ∃ extension ∈ sourceSuffixes,
      name = front ++ kind ++ extension := by
  rw [isTestName, occursIn_iff]
  constructor
  · rintro ⟨before, x, rest, hname, hmatch⟩
    obtain ⟨m, hm⟩ := Option.isSome_iff_exists.mp hmatch
    obtain ⟨d, hreach, -⟩ := reaches_of_matchAt _ _ _ _ m hm
    obtain ⟨kind, hkind, extension, hextension, tail, htail, hafter⟩ :=
      exists_of_reaches_testFile hreach
    change x :: rest = _ at hafter
    rw [hafter, ← append_assoc] at hname
    rcases htail with rfl | rfl
    · refine ⟨String.ofList before, kind, hkind, extension, hextension, ?_⟩
      rw [← String.toList_inj, hname]
      simp
    · -- A line break would come after the suffix.
      obtain ⟨stem, -, other, hother, rfl⟩ := suffixOf_mem_iff.mp h
      have hbreak := congrArg List.getLast? hname
      rw [getLast?_concat, String.toList_append] at hbreak
      simp only [sourceSuffixes, mem_cons, not_mem_nil, or_false] at hother
      rcases hother with rfl | rfl | rfl | rfl <;> simp at hbreak
  · rintro ⟨front, kind, hkind, extension, hextension, rfl⟩
    have hlength := one_lt_length_sourceSuffix hextension
    obtain ⟨m, hm, -⟩ := (reads_testFile hkind hextension).exists_matchAt front.toList.reverse
      front.toList.length
    rw [append_nil] at hm
    obtain ⟨x, rest, hx⟩ := exists_cons_of_length_pos
      (show 0 < (kind.toList ++ extension.toList).length by rw [length_append]; omega)
    exact ⟨front.toList, x, rest, by simp [← hx], by rw [← hx, hm, Option.isSome_some]⟩

/-- What a rule takes in: a source file, by directories and name. -/
structure ListingRule.TakesIn (rule : ListingRule) (directories : List String) (name : String) :
    Prop where
  direct : rule.recursive = false → directories = []
  source : ∃ stem ≠ "", ∃ extension ∈ sourceSuffixes, name = stem ++ extension
  entered : ∀ dir ∈ directories, dir ∉ rule.skipDirectories
  noTest : rule.skipTests = true → ∀ front, ∀ kind ∈ testKinds, ∀ extension ∈ sourceSuffixes,
    name ≠ front ++ kind ++ extension

/-- A rule takes in what it says. -/
theorem ListingRule.takes_iff (rule : ListingRule) {directories : List String} {name : String} :
    rule.takes (directories ++ [name]) = true ↔ rule.TakesIn directories name := by
  have hname : (directories ++ [name]).getLast?.getD "" = name := by simp
  have hdirect : (rule.recursive || (directories ++ [name]).length == 1) = true ↔
      (rule.recursive = false → directories = []) := by
    cases rule.recursive <;> simp
  have htest (hsource : suffixOf name ∈ sourceSuffixes) :
      (!(rule.skipTests && isTestName name)) = true ↔ (rule.skipTests = true → ∀ front,
        ∀ kind ∈ testKinds, ∀ extension ∈ sourceSuffixes, name ≠ front ++ kind ++ extension) := by
    rw [Bool.not_eq_true', ← Bool.not_eq_true, Bool.and_eq_true, isTestName_iff hsource, not_and]
    simp only [not_exists, not_and]
  simp only [takes, hname, dropLast_concat, Bool.and_eq_true, hdirect, contains_iff_mem]
  constructor
  · rintro ⟨⟨⟨⟨-, hdir⟩, hsource⟩, hskip⟩, hnot⟩
    exact ⟨hdir, suffixOf_mem_iff.mp hsource, by simpa using hskip, (htest hsource).mp hnot⟩
  · rintro ⟨hdir, hsource, hskip, hnot⟩
    have hsource := suffixOf_mem_iff.mpr hsource
    exact ⟨⟨⟨⟨by simp, hdir⟩, hsource⟩, by simpa using hskip⟩, (htest hsource).mpr hnot⟩

variable {t : Tree}

/-- A listing is in the order of its names. -/
theorem pairwise_sourceFiles (h : t.Distinct) (dir : Path) (rule : ListingRule) :
    (t.sourceFiles dir rule).Pairwise fun a b => a.names < b.names := by
  unfold sourceFiles
  split
  · exact .nil
  · split
    · refine pairwise_map.mpr (Pairwise.filter _ ?_)
      refine ((pairwise_mergeSort_of_key namesLE id namesLE_iff _).and
        (t.nodup_namesBelow h _)).imp fun hab => ?_
      exact append_left_lt (lt_of_le_of_ne hab.1 hab.2)
    · exact .nil

/-- A listing holds the files that its rule takes in. -/
theorem mem_sourceFiles_iff_takesIn (hdown : t.GoesDown) (dir : Path) (rule : ListingRule)
    (file : Path) : file ∈ t.sourceFiles dir rule ↔ ∃ directories name,
      file = { dir with names := dir.names ++ (directories ++ [name]) } ∧
      ".." ∉ directories ++ [name] ∧ t.isFile file = true ∧ rule.TakesIn directories name := by
  rw [mem_sourceFiles_iff hdown]
  constructor
  · rintro ⟨names, rfl, hplain, hfile, htakes⟩
    obtain ⟨directories, name, rfl⟩ :=
      (eq_nil_or_concat' names).resolve_left (rule.ne_nil_of_takes names htakes)
    exact ⟨directories, name, rfl, hplain, hfile, rule.takes_iff.mp htakes⟩
  · rintro ⟨directories, name, heq, hplain, hfile, htakes⟩
    exact ⟨_, heq, hplain, hfile, rule.takes_iff.mpr htakes⟩

/-- Unless a path that is looked up is too long, there is a listing, in the order of paths, of just
the files below the directory that its rule takes in. -/
theorem listing_exact [Host] (hdistinct : t.Distinct) (hdown : t.GoesDown) (directory : Path)
    (rule : ListingRule) :
    (t.CannotList directory rule → t.lookupSourceFiles directory rule = .error .tooLong) ∧
    (¬ t.CannotList directory rule → ∃ files, t.lookupSourceFiles directory rule = .ok files ∧
      (files.Pairwise fun a b => a.names < b.names) ∧ (∀ file, file ∈ files ↔ ∃ directories name,
        file = { directory with names := directory.names ++ (directories ++ [name]) } ∧
        ".." ∉ directories ++ [name] ∧ t.isFile file = true ∧ rule.TakesIn directories name) ∧
      (t.isDirectory directory = false → files = [])) := by
  refine ⟨lookupSourceFiles_eq_error, fun hlist => ?_⟩
  exact ⟨t.sourceFiles directory rule, lookupSourceFiles_eq_ok hlist,
    pairwise_sourceFiles hdistinct directory rule,
    mem_sourceFiles_iff_takesIn hdown directory rule, (sourceFiles_eq_nil · rule)⟩

/-- A file, a test of it and what was built from both. -/
def builtTree : Tree where
  files :=
    [(["web", "Cart.tsx"], []), (["web", "Cart.test.tsx"], []), (["web", "dist", "Cart.js"], [])]
  directories := []

/-- The listing that passes over tests and what was built. -/
def builtRule : ListingRule where
  skipDirectories := ["dist"]

section

attribute [local instance] Host.usual

/-- The statement at a tree with a build. -/
theorem listing_exact_builtTree :
    builtTree.Distinct ∧ builtTree.GoesDown ∧ ¬ builtTree.CannotList ⟨.slash, ["web"]⟩ builtRule ∧
      ∃ files, builtTree.lookupSourceFiles ⟨.slash, ["web"]⟩ builtRule = .ok files ∧
        ⟨.slash, ["web", "Cart.tsx"]⟩ ∈ files := by
  have hdistinct : builtTree.Distinct := by
    unfold Distinct
    decide
  have hdown : builtTree.GoesDown := by
    unfold GoesDown
    decide
  have hshort : ∀ path ∈ ⟨.slash, ["web"]⟩ :: builtTree.lookedUp ⟨.slash, ["web"]⟩ builtRule,
      builtTree.isTooLong path = false := by
    decide +kernel
  have hlist : ¬ builtTree.CannotList ⟨.slash, ["web"]⟩ builtRule := by
    rintro (hlong | ⟨-, path, hmem, hlong⟩)
    · cases (hshort _ (mem_cons_self ..)).symm.trans hlong
    · cases (hshort _ (mem_cons_of_mem _ hmem)).symm.trans hlong
  obtain ⟨files, hfiles, -, hmem, -⟩ := (listing_exact hdistinct hdown _ _).2 hlist
  refine ⟨hdistinct, hdown, hlist, files, hfiles, (hmem _).mpr ⟨[], "Cart.tsx", rfl, ?_⟩⟩
  exact ⟨by decide, by decide, builtRule.takes_iff.mp (by decide +kernel)⟩

/-- A name too long is no directory, and has no listing. -/
theorem listing_longName :
    ∃ directory : Path, AliasTable.bareProject.tree.isDirectory directory = false ∧
      AliasTable.bareProject.tree.lookupSourceFiles directory { skipDirectories := [] } =
        .error .tooLong := by
  refine ⟨⟨.slash, ["src", String.ofList AliasTable.longName]⟩, by decide +kernel, ?_⟩
  exact lookupSourceFiles_eq_error (.inl AliasTable.isTooLong_longName)

end

end SiteAtlas.Tree
