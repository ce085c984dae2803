import Mathlib.Data.List.Infix
import SiteAtlas.Proofs.ActionTails

/-!
# Relative imports of server actions

The way to a place goes up to what both share and then down. Joined to the importer's directory and
normalised, it gives the place, so a file of server actions is recognised in a relative import
however it is spelled. Conversely, a recognised one leads to the file, backslashes counting as
slashes.
-/

namespace SiteAtlas

open List AliasTable

variable {root : PathRoot} {names there : List (List Char)} {cs specifier : List Char}

namespace PathText

/-- The text of a path below a root. -/
def rooted (root : PathRoot) (names : List (List Char)) : List Char :=
  root.text.toList ++ Text.join ['/'] names

/-- The names below a root. -/
theorem parts_rooted (h : ∀ name ∈ names, IsName name) : parts (rooted root names) = names := by
  have hslash (more : List Char) : parts ('/' :: more) = parts more := parts_append [] more
  cases root with
  | relative => exact parts_join h
  | slash => exact (hslash _).trans (parts_join h)
  | doubleSlash => exact (hslash _).trans ((hslash _).trans (parts_join h))

/-- The root of an absolute text. -/
theorem rootOf_rooted (hroot : root ≠ .relative) (h : ∀ name ∈ names, IsName name) :
    rootOf (rooted root names) = root := by
  have hfirst := head_join_ne_slash h
  have hstop : (Text.join ['/'] names).takeWhile (· == '/') = [] := by
    cases hjoin : Text.join ['/'] names with
    | nil => rfl
    | cons c others => exact takeWhile_cons_of_neg (by simpa [hjoin] using hfirst)
  cases root with
  | relative => exact absurd rfl hroot
  | slash => simp [rootOf, rooted, PathRoot.text, hstop]
  | doubleSlash => simp [rootOf, rooted, PathRoot.text, hstop]

/-- A rooted text is not empty. -/
theorem rooted_ne_nil (hroot : root ≠ .relative) (names : List (List Char)) :
    rooted root names ≠ [] := by
  cases root with
  | relative => exact absurd rfl hroot
  | slash | doubleSlash => simp [rooted, PathRoot.text]

/-- Normalising gives root and names. -/
theorem normalize_eq_rooted (h : rootOf cs ≠ .relative) :
    normalize cs = rooted (rootOf cs) (resolved cs) := by
  have hrooted : (rootOf cs != .relative) = true := bne_iff_ne.mpr h
  have hne := rooted_ne_nil h (resolved cs)
  unfold normalize
  simp only [hrooted]
  exact if_neg (by simpa [rooted, resolved, parts] using hne)

/-- A name in a directory. -/
theorem rooted_concat (h : names ≠ []) (name : List Char) :
    rooted root (names ++ [name]) = rooted root names ++ '/' :: name := by
  rw [rooted, Text.join_append _ h (by simp), rooted]
  simp [Text.join]

/-- The text of the directory of a path. -/
theorem toList_parent_toString (h : rootOf cs ≠ .relative) :
    (Path.ofString (String.ofList cs)).parent.toString.toList =
      rooted (rootOf cs) (parts cs).dropLast := by
  have hnames : Path.namesOf cs = (parts cs).map String.ofList := rfl
  have htext (names : List String) : (Path.mk (rootOf cs) names).toString.toList =
      rooted (rootOf cs) (names.map String.toList) := by
    simp [Path.toString, h, rooted, Text.toList_joinStrings]
  unfold Path.ofString Path.parent
  dsimp only
  rw [String.toList_ofList, htext, hnames, ← map_dropLast, map_map]
  simp

/-- An absolute path text that normalising leaves as it is. -/
structure IsNormal (cs : List Char) : Prop where
  absolute : rootOf cs ≠ .relative
  normalize_eq : normalize cs = cs

/-- Resolving leaves no double dots below a root. -/
theorem dots_not_mem_resolveDots {kept : List (List Char)} (h : "..".toList ∉ kept) :
    "..".toList ∉ resolveDots true kept names := by
  fun_induction resolveDots true kept names with
  | case1 kept => rwa [mem_reverse]
  | case2 kept part rest hpart ih =>
    refine ih fun hmem => ?_
    rcases mem_cons.mp hmem with rfl | hmem
    · cases hpart
    · exact h hmem
  | case3 part rest hpart ih => exact ih not_mem_nil
  | case4 part rest hpart last others hlast ih =>
    exact absurd (beq_iff_eq.mp hlast) (Ne.symm (ne_of_not_mem_cons h))
  | case5 part rest hpart last others hlast ih => exact ih (not_mem_of_not_mem_cons h)

/-- A normal text consists of a root and names without double dots. -/
theorem IsNormal.eq_rooted (h : IsNormal cs) :
    cs = rooted (rootOf cs) (parts cs) ∧ "..".toList ∉ parts cs := by
  have heq : cs = rooted (rootOf cs) (resolved cs) :=
    h.normalize_eq.symm.trans (normalize_eq_rooted h.absolute)
  have hparts : parts cs = resolved cs :=
    (congrArg parts heq).trans (parts_rooted fun name => isName_of_mem_resolved)
  rw [hparts]
  exact ⟨heq, dots_not_mem_resolveDots not_mem_nil⟩

/-- The way from a directory to a place: up to what they share, then down. -/
def wayTo : List (List Char) → List (List Char) → List (List Char)
  | a :: here, b :: there =>
    if a = b then wayTo here there
    else List.replicate (here.length + 1) "..".toList ++ b :: there
  | here, there => List.replicate here.length "..".toList ++ there

/-- A way as a relative text, which begins with a dot. -/
def relativeText (way : List (List Char)) : List Char :=
  Text.join ['/'] (if way.head? = some "..".toList then way else ".".toList :: way)

/-- Going up as often as there are names leads back. -/
theorem resolveDots_up {rooted : Bool} (h : "..".toList ∉ names) (kept rest : List (List Char)) :
    resolveDots rooted kept (names ++ (List.replicate names.length "..".toList ++ rest)) =
      resolveDots rooted kept rest := by
  induction names generalizing kept rest with
  | nil => rfl
  | cons name names ih =>
    obtain ⟨hname, hnames⟩ := ne_and_not_mem_of_not_mem_cons h
    -- The last of the double dots belongs to the first name.
    have hlast : List.replicate (names.length + 1) "..".toList ++ rest =
        List.replicate names.length "..".toList ++ ("..".toList :: rest) := by
      rw [replicate_succ', append_assoc, singleton_append]
    have hkept : (name != "..".toList) = true := by simpa using hname.symm
    have hup : (name == "..".toList) = false := by simpa using hname.symm
    have hdots : ("..".toList != "..".toList) = false := rfl
    rw [cons_append, length_cons, hlast, resolveDots.eq_def]
    simp only [hkept, if_true]
    rw [ih hnames, resolveDots.eq_def]
    simp only [hdots, hup, Bool.false_eq_true, if_false]

/-- The way from a directory leads to its end. -/
theorem resolveDots_wayTo {rooted : Bool} {here : List (List Char)} (hhere : "..".toList ∉ here)
    (hthere : "..".toList ∉ there) (kept : List (List Char)) :
    resolveDots rooted kept (here ++ wayTo here there) = kept.reverse ++ there := by
  fun_induction wayTo here there generalizing kept with
  | case1 here a there ih =>
    obtain ⟨ha, hhere⟩ := ne_and_not_mem_of_not_mem_cons hhere
    have hkept : (a != "..".toList) = true := by simpa using ha.symm
    rw [cons_append, resolveDots.eq_def]
    simp only [hkept, if_true]
    rw [ih hhere (not_mem_of_not_mem_cons hthere)]
    simp
  | case2 a here b there hne =>
    rw [← length_cons (a := a), resolveDots_up hhere, resolveDots_of_not_mem hthere]
  | case3 here there _ => rw [resolveDots_up hhere, resolveDots_of_not_mem hthere]

/-- The names on a way between normal places are names. -/
theorem isName_of_mem_wayTo {here : List (List Char)} (h : ∀ name ∈ there, IsName name)
    {name : List Char} (hname : name ∈ wayTo here there) : IsName name := by
  have hdots : IsName "..".toList := ⟨by decide, by decide, by decide⟩
  have hmem : name = "..".toList ∨ name ∈ there := by
    fun_induction wayTo here there with
    | case1 here a there ih =>
      exact (ih (fun other hother => h other (mem_cons_of_mem a hother)) hname).imp_right
        (mem_cons_of_mem a)
    | case2 a here b there hne => exact (mem_append.mp hname).imp_left eq_of_mem_replicate
    | case3 here there _ => exact (mem_append.mp hname).imp_left eq_of_mem_replicate
  rcases hmem with rfl | hmem
  · exact hdots
  · exact h name hmem

/-- A relative text's names are the way's, also with a final slash. -/
theorem parts_relativeText {way : List (List Char)} (h : ∀ name ∈ way, IsName name)
    {tail : List Char} (htail : tail = [] ∨ tail = ['/']) :
    parts (relativeText way ++ tail) = way := by
  have hway : parts (relativeText way) = way := by
    unfold relativeText
    split
    · exact parts_join h
    · cases way with
      | nil => rfl
      | cons name way =>
        have hdot : parts ".".toList = [] := rfl
        have hjoin : Text.join ['/'] (".".toList :: name :: way) =
            ".".toList ++ '/' :: Text.join ['/'] (name :: way) := by simp [Text.join]
        rw [hjoin, parts_append, hdot, parts_join h, nil_append]
  rcases htail with rfl | rfl
  · rw [append_nil, hway]
  · rw [parts_append, hway]
    exact append_nil way

/-- A relative text is relative. -/
theorem isRelative_relativeText (way : List (List Char)) (tail : List Char) :
    isRelative (relativeText way ++ tail) = true := by
  unfold relativeText
  split
  · next hhead =>
    obtain ⟨others, rfl⟩ := head?_eq_some_iff.mp hhead
    cases others <;> rfl
  · cases way <;> rfl

end PathText

open PathText

/-- Where a relative specifier leads from a file. -/
theorem AliasTable.relativeTarget_eq_rooted {importer : String} (h : IsNormal importer.toList)
    (hrelative : isRelative specifier = true) :
    relativeTarget specifier (.ofString importer) = rooted (rootOf importer.toList)
      (resolveDots true [] ((parts importer.toList).dropLast ++ parts specifier)) := by
  have hhead : specifier.head? ≠ some '/' := by
    obtain ⟨rest, rfl⟩ := List.isPrefixOf_iff_prefix.mp hrelative
    simp
  have hparent := toList_parent_toString h.absolute
  rw [String.ofList_toList] at hparent
  have hne := rooted_ne_nil h.absolute (parts importer.toList).dropLast
  have hnames : ∀ name ∈ (parts importer.toList).dropLast, IsName name :=
    fun name hname => isName_of_mem_parts (mem_of_mem_dropLast hname)
  have hroot : rootOf (join (rooted (rootOf importer.toList) (parts importer.toList).dropLast)
      specifier) = rootOf importer.toList := by
    rw [rootOf_join_eq hne hhead, rootOf_rooted h.absolute hnames]
  rw [relativeTarget, joinNormal, hparent, normalize_eq_rooted (by rw [hroot]; exact h.absolute),
    hroot, resolved, parts_pathJoin hne hhead, parts_rooted hnames]

/-- A path text without the source suffix that it ends in. -/
def dropSuffix (cs : List Char) : List Char :=
  match Tree.sourceSuffixes.find? (·.toList.isSuffixOf cs) with
  | some suffix => cs.take (cs.length - suffix.length)
  | none => cs

/-- A suffix is dropped. -/
theorem dropSuffix_append (body : List Char) {suffix : String} (h : suffix ∈ Tree.sourceSuffixes) :
    dropSuffix (body ++ suffix.toList) = body := by
  have hdrop : (body ++ suffix.toList).take ((body ++ suffix.toList).length - suffix.length) =
      body := by
    rw [length_append, String.length_toList, Nat.add_sub_cancel, take_left]
  have hfind : Tree.sourceSuffixes.find? (·.toList.isSuffixOf (body ++ suffix.toList)) =
      some suffix := by
    simp only [Tree.sourceSuffixes, mem_cons, not_mem_nil, or_false] at h
    rcases h with rfl | rfl | rfl | rfl <;>
      simp [Tree.sourceSuffixes, List.find?, List.isSuffixOf, List.isPrefixOf]
  rw [dropSuffix, hfind]
  exact hdrop

/-- Without a source suffix at the end nothing is dropped. -/
theorem dropSuffix_eq_self (h : ∀ suffix ∈ Tree.sourceSuffixes, ¬ suffix.toList <:+ cs) :
    dropSuffix cs = cs := by
  have hnone : Tree.sourceSuffixes.find? (·.toList.isSuffixOf cs) = none := by
    rw [find?_eq_none]
    intro suffix hsuffix hends
    exact h suffix hsuffix (isSuffixOf_iff_suffix.mp hends)
  rw [dropSuffix, hnone]

/-- What is left of a path is compared up to a final line break. -/
theorem withoutSuffix_eq_iff {text : List Char} (htext : '\n' ∉ text) :
    withoutSuffix cs = text ↔ dropSuffix (slashed cs) = text := by
  by_cases hends : EndsInSuffix cs
  · obtain ⟨body, suffix, hsuffix, tail, rfl | rfl, rfl⟩ := hends
    · obtain ⟨rest, hrest, -, -, hfree⟩ := exists_cons_of_mem_sourceSuffixes hsuffix (.inl rfl)
      rw [append_nil] at hrest
      have hsame : slashed suffix.toList = suffix.toList :=
        slashed_of_not_mem (by simpa [hrest] using hfree)
      rw [withoutSuffix_append body hsuffix (.inl rfl), append_nil, append_nil,
        slashed_append, hsame, dropSuffix_append _ hsuffix]
    · have hline : slashed (body ++ (suffix.toList ++ ['\n'])) =
          slashed (body ++ suffix.toList) ++ ['\n'] := by
        rw [← append_assoc, slashed_append]
        rfl
      have hkept : dropSuffix (slashed (body ++ (suffix.toList ++ ['\n']))) =
          slashed (body ++ suffix.toList) ++ ['\n'] := by
        rw [hline]
        refine dropSuffix_eq_self fun other hother hlast => ?_
        obtain ⟨front, hfront⟩ := hlast
        have hreverse := congrArg List.reverse hfront
        simp only [Tree.sourceSuffixes, mem_cons, not_mem_nil, or_false] at hother
        rcases hother with rfl | rfl | rfl | rfl <;> simp at hreverse
      rw [withoutSuffix_append body hsuffix (.inr rfl), hkept]
      constructor
      all_goals
        rintro rfl
        exact absurd (by simp) htext
  · rw [withoutSuffix_of_not_endsInSuffix hends, dropSuffix_eq_self]
    rintro suffix hsuffix ⟨body, hbody⟩
    refine hends (EndsInSuffix.of_slashed ⟨body, suffix, hsuffix, [], .inl rfl, ?_⟩)
    rw [append_nil, hbody]

/-- A text without slashes at the end lies in the last name. -/
theorem suffix_of_suffix_append {part name : List Char} (hpart : '/' ∉ part)
    {dir : List Char} (h : part <:+ dir ++ '/' :: name) : part <:+ name := by
  rcases suffix_or_suffix_of_suffix h (suffix_append dir ('/' :: name)) with h | h
  · rcases suffix_cons_iff.mp h with rfl | h
    · exact absurd mem_cons_self hpart
    · exact h
  · exact absurd (h.mem mem_cons_self) hpart

/-- The path text of a source file in a directory. -/
structure IsSourcePath (path dir stem : List Char) (suffix : String) : Prop where
  normal : IsNormal path
  eq_append : path = dir ++ '/' :: (stem ++ suffix.toList)
  below : parts dir ≠ []
  mem_sourceSuffixes : suffix ∈ Tree.sourceSuffixes
  isName : IsName stem
  ne_dots : stem ≠ "..".toList
  noSuffix : ∀ other ∈ Tree.sourceSuffixes, ¬ other.toList <:+ stem
  noBackslash : '\\' ∉ path
  noLineBreak : '\n' ∉ path

/-- The places that stand for a source file: the file, the file without suffix, and the directory of
an index file unless named like a source file. -/
inductive StandsFor (dir stem : List Char) (suffix : String) : List (List Char) → Prop where
  | file : StandsFor dir stem suffix (parts dir ++ [stem ++ suffix.toList])
  | stem : StandsFor dir stem suffix (parts dir ++ [stem])
  | directory (hstem : stem = "index".toList)
      (hplain : ∀ other ∈ Tree.sourceSuffixes, ¬ other.toList <:+ dir) :
      StandsFor dir stem suffix (parts dir)

section Source

variable {path dir stem : List Char} {suffix : String}
  (h : IsSourcePath path dir stem suffix)
include h

/-- The parts of a source path. -/
theorem IsSourcePath.parts_eq : parts path = parts dir ++ [stem ++ suffix.toList] := by
  rw [h.eq_append, parts_append, parts_name (isName_append h.isName.slashFree h.mem_sourceSuffixes)]

/-- The directory of a source file as names below a root. -/
theorem IsSourcePath.directory_eq : dir = rooted (rootOf path) (parts dir) := by
  have hpath := h.normal.eq_rooted.1
  rw [h.parts_eq, rooted_concat h.below] at hpath
  exact append_cancel_right (h.eq_append.symm.trans hpath)

/-- A source path up to its suffix. -/
theorem IsSourcePath.eq_append_suffix : path = dir ++ '/' :: stem ++ suffix.toList := by
  rw [h.eq_append, append_assoc, cons_append]

/-- What stands before the suffix has no backslashes. -/
theorem IsSourcePath.backslash_not_mem : '\\' ∉ dir ++ '/' :: stem := fun hmem =>
  h.noBackslash (h.eq_append_suffix ▸ mem_append_left _ hmem)

/-- A source path has no line break. -/
theorem IsSourcePath.lineBreak_not_mem : '\n' ∉ dir ++ '/' :: stem := fun hmem =>
  h.noLineBreak (h.eq_append_suffix ▸ mem_append_left _ hmem)

/-- A source path without its suffix. -/
theorem IsSourcePath.withoutSuffix_eq : withoutSuffix path = dir ++ '/' :: stem := by
  have hdrop := withoutSuffix_append (dir ++ '/' :: stem) h.mem_sourceSuffixes (.inl rfl)
  rw [append_nil, append_nil, slashed_of_not_mem h.backslash_not_mem] at hdrop
  rw [h.eq_append_suffix, hdrop]

/-- An index stands for its directory. -/
theorem IsSourcePath.eraseAll_finalIndex_eq : finalIndex.eraseAll (dir ++ '/' :: stem) =
      if stem = "index".toList then dir else dir ++ '/' :: stem := by
  split
  · next hstem =>
    rw [hstem]
    exact eraseAll_finalIndex dir
  · next hstem =>
    refine eraseAll_finalIndex_eq_self fun body tail htail heq => hstem ?_
    rcases htail with rfl | rfl
    · -- Of two last names of one text, each ends in the other.
      rw [append_nil] at heq
      have hname : stem <:+ "index".toList :=
        suffix_of_suffix_append h.isName.slashFree ⟨dir ++ ['/'], by simpa using heq⟩
      have hindex : "index".toList <:+ stem :=
        suffix_of_suffix_append (by simp) ⟨body ++ ['/'], by simpa using heq.symm⟩
      exact hname.eq_of_length (Nat.le_antisymm hname.length_le hindex.length_le)
    · exact absurd (by simp [heq]) h.lineBreak_not_mem

/-- A relative specifier means a source file if it leads to it or to the directory of an index file,
up to backslashes and a source suffix. -/
theorem IsSourcePath.matchesAction_iff {action : ServerActionFile}
    (haction : action.filePath.toList = path) (table : AliasTable)
    (hrelative : isRelative specifier = true) (importer : Path) :
    matchesAction table specifier action importer = true ↔
      dropSuffix (slashed (relativeTarget specifier importer)) = dir ++ '/' :: stem ∨
      stem = "index".toList ∧ dropSuffix (slashed (relativeTarget specifier importer)) = dir := by
  have hdir : '\n' ∉ dir := fun hmem =>
    h.lineBreak_not_mem (mem_append_left _ hmem)
  rw [matchesAction, if_pos hrelative, haction, h.withoutSuffix_eq]
  dsimp only
  rw [h.eraseAll_finalIndex_eq, Bool.or_eq_true, beq_iff_eq, beq_iff_eq,
    withoutSuffix_eq_iff h.lineBreak_not_mem]
  split
  · next hstem => rw [withoutSuffix_eq_iff hdir, and_iff_right hstem]
  · next hstem =>
    rw [withoutSuffix_eq_iff h.lineBreak_not_mem, or_self]
    exact (or_iff_left fun hindex => hstem hindex.1).symm

/-- The place of a file has proper names. -/
theorem IsSourcePath.names_of_standsFor {place : List (List Char)}
    (hplace : StandsFor dir stem suffix place) :
    (∀ name ∈ place, IsName name) ∧ "..".toList ∉ place := by
  have hdots := h.normal.eq_rooted.2
  rw [h.parts_eq] at hdots
  have hnames : ∀ name ∈ parts dir, IsName name := fun name => isName_of_mem_parts
  have hdir : "..".toList ∉ parts dir := fun hmem =>
    hdots (mem_append_left _ hmem)
  cases hplace with
  | file =>
    have hname := isName_append h.isName.slashFree h.mem_sourceSuffixes
    exact ⟨forall_mem_append.mpr ⟨hnames, forall_mem_singleton.mpr hname⟩, hdots⟩
  | stem =>
    refine ⟨forall_mem_append.mpr ⟨hnames, forall_mem_singleton.mpr h.isName⟩, ?_⟩
    rw [mem_append, not_or, mem_singleton]
    exact ⟨hdir, h.ne_dots.symm⟩
  | directory => exact ⟨hnames, hdir⟩

/-- A specifier that leads to a source file's place means it. -/
theorem IsSourcePath.matchesAction_of_standsFor {action : ServerActionFile}
    (haction : action.filePath.toList = path) (table : AliasTable)
    (hrelative : isRelative specifier = true) {importer : Path} {place : List (List Char)}
    (hplace : StandsFor dir stem suffix place)
    (htarget : relativeTarget specifier importer = rooted (rootOf path) place) :
    matchesAction table specifier action importer = true := by
  rw [h.matchesAction_iff haction table hrelative, htarget]
  cases hplace with
  | file =>
    left
    rw [rooted_concat h.below, ← h.directory_eq, ← h.eq_append, slashed_of_not_mem h.noBackslash,
      h.eq_append_suffix, dropSuffix_append _ h.mem_sourceSuffixes]
  | stem =>
    left
    rw [rooted_concat h.below, ← h.directory_eq, slashed_of_not_mem h.backslash_not_mem]
    refine dropSuffix_eq_self fun other hother hends => ?_
    obtain ⟨rest, hrest, -, hfree, -⟩ := exists_cons_of_mem_sourceSuffixes hother (.inl rfl)
    rw [append_nil] at hrest
    exact h.noSuffix other hother (suffix_of_suffix_append (by simpa [hrest] using hfree) hends)
  | directory hstem hplain =>
    right
    have hslashes : '\\' ∉ dir := fun hmem =>
      h.backslash_not_mem (mem_append_left _ hmem)
    rw [← h.directory_eq, slashed_of_not_mem hslashes]
    exact ⟨hstem, dropSuffix_eq_self hplain⟩

end Source

/-- The way from the directory of an importing file leads to its end. -/
theorem AliasTable.relativeTarget_wayTo {importer : String} (h : IsNormal importer.toList)
    (hnames : ∀ name ∈ there, IsName name) (hdots : "..".toList ∉ there) {tail : List Char}
    (htail : tail = [] ∨ tail = ['/']) :
    relativeTarget (relativeText (wayTo (parts importer.toList).dropLast there) ++ tail)
      (.ofString importer) = rooted (rootOf importer.toList) there := by
  have hhere : "..".toList ∉ (parts importer.toList).dropLast :=
    fun hmem => h.eq_rooted.2 (mem_of_mem_dropLast hmem)
  rw [relativeTarget_eq_rooted h (isRelative_relativeText _ tail),
    parts_relativeText (fun name => isName_of_mem_wayTo hnames) htail,
    resolveDots_wayTo hhere hdots]
  rfl

/-- The way to a place that stands for a file of server actions is recognised as an import of it.
Conversely, a relative import is recognised only if it leads to the file or to the directory of an
index file, up to backslashes and a source suffix. -/
theorem relative_import_denotes (table : AliasTable) (action : ServerActionFile) (importer : String)
    (himporter : IsNormal importer.toList) (directory stem : List Char) (suffix : String)
    (haction : IsSourcePath action.filePath.toList directory stem suffix) :
    (rootOf importer.toList = rootOf action.filePath.toList →
      ∀ place, StandsFor directory stem suffix place → ∀ tail, tail = [] ∨ tail = ['/'] →
        matchesAction table (relativeText (wayTo (parts importer.toList).dropLast place) ++ tail)
          action (.ofString importer) = true) ∧ ∀ specifier, isRelative specifier = true →
      (matchesAction table specifier action (.ofString importer) = true ↔
        let target := PathText.normalize
          (PathText.join (Path.ofString importer).parent.toString.toList specifier)
        dropSuffix (slashed target) = directory ++ '/' :: stem ∨
          stem = "index".toList ∧ dropSuffix (slashed target) = directory) := by
  constructor
  · intro hroot place hplace tail htail
    obtain ⟨hnames, hdots⟩ := haction.names_of_standsFor hplace
    refine haction.matchesAction_of_standsFor rfl table (isRelative_relativeText _ tail) hplace ?_
    rw [relativeTarget_wayTo himporter hnames hdots htail, hroot]
  · intro specifier hrelative
    exact haction.matchesAction_iff rfl table hrelative (.ofString importer)

/-- Actions in an index file. -/
def indexActions : ServerActionFile where
  filePath := "/app/actions/index.ts"
  relativePath := "app/actions/index.ts"
  exportedFunctions := ["save"]

/-- The statement at an index file. -/
theorem relative_import_denotes_indexActions : IsNormal "/app/forms/Form.tsx".toList ∧
    IsSourcePath indexActions.filePath.toList "/app/actions".toList "index".toList ".ts" ∧
    matchesAction ⟨none, []⟩ "../actions".toList indexActions (.ofString "/app/forms/Form.tsx") =
      true := by
  have himporter : IsNormal "/app/forms/Form.tsx".toList := ⟨by decide, by decide⟩
  have haction : IsSourcePath indexActions.filePath.toList "/app/actions".toList "index".toList
      ".ts" :=
    ⟨⟨by decide, by decide⟩, rfl, by decide, by decide, ⟨by decide, by decide, by decide⟩,
      by decide, by decide, by decide, by decide⟩
  have hplace : StandsFor "/app/actions".toList "index".toList ".ts"
      ["app".toList, "actions".toList] :=
    .directory rfl (by decide)
  exact ⟨himporter, haction, (relative_import_denotes ⟨none, []⟩ indexActions _ himporter _ _ _
    haction).1 (by decide) _ hplace [] (.inl rfl)⟩

/-- A file of server actions in a directory below the one of its importer. -/
def nestedActions : ServerActionFile where
  filePath := "/src/b/a.ts"
  relativePath := "src/b/a.ts"
  exportedFunctions := ["save"]

/-- A specifier with a backslash is recognised although it leads elsewhere. -/
theorem relative_import_backslash : IsNormal "/src/Form.tsx".toList ∧
    IsSourcePath nestedActions.filePath.toList "/src/b".toList "a".toList ".ts" ∧
    isRelative "./b\\a".toList = true ∧
    matchesAction ⟨none, []⟩ "./b\\a".toList nestedActions (.ofString "/src/Form.tsx") = true ∧
    ¬ (dropSuffix (PathText.normalize (PathText.join
        (Path.ofString "/src/Form.tsx").parent.toString.toList "./b\\a".toList)) =
          "/src/b".toList ++ '/' :: "a".toList ∨ "a".toList = "index".toList) := by
  refine ⟨⟨by decide, by decide⟩, ?_, rfl, by decide +kernel, by decide +kernel⟩
  exact ⟨⟨by decide, by decide⟩, rfl, by decide, by decide, ⟨by decide, by decide, by decide⟩,
    by decide, by decide, by decide, by decide⟩

end SiteAtlas
