import SiteAtlas.Proofs.FinalSuffix
import SiteAtlas.Proofs.PathTexts

/-!
# How import specifiers end paths

What an import leaves to compare is looked for at the end of a path, where only whole names count.
Names that a suffix or an index name completes to the path are found there; with the suffix they are
found only without it.
-/

namespace SiteAtlas

open List AliasTable PathText

variable {suffix : String} {path : List Char}

/-- A place is completed by nothing, a suffix or an index file. -/
theorem AliasTable.cases_of_mem_probeSuffixes (h : suffix ∈ probeSuffixes) :
    suffix = "" ∨ ∃ extension ∈ Tree.sourceSuffixes,
      suffix = extension ∨ suffix = "/index" ++ extension := by
  revert suffix
  decide

/-- A source suffix makes a name of what it is put after. -/
theorem isName_append {name : List Char} (hname : '/' ∉ name) {extension : String}
    (h : extension ∈ Tree.sourceSuffixes) : IsName (name ++ extension.toList) := by
  have hlength := one_lt_length_sourceSuffix h
  obtain ⟨rest, hrest, -, hfree, -⟩ := exists_cons_of_mem_sourceSuffixes h (.inl rfl)
  rw [append_nil] at hrest
  refine ⟨fun hnil => ?_, fun hdot => ?_, ?_⟩
  · simp [hrest] at hnil
  · have hone := congrArg List.length hdot
    rw [length_append, length_singleton] at hone
    omega
  · rw [mem_append, not_or]
    exact ⟨hname, by simpa [hrest] using hfree⟩

/-- A completed place is a place, unless it has two slashes first. -/
theorem exists_absolute_of_completed {names : List (List Char)}
    (hnames : ∀ name ∈ names, IsName name) (hsuffix : suffix ∈ probeSuffixes)
    (hroot : rootOf (absolute names ++ suffix.toList) = .slash) :
    ∃ completed, (∀ name ∈ completed, IsName name) ∧
      absolute names ++ suffix.toList = absolute completed := by
  rcases cases_of_mem_probeSuffixes hsuffix with rfl | ⟨extension, hextension, rfl | rfl⟩
  · exact ⟨names, hnames, by simp⟩
  · rcases eq_nil_or_concat' names with rfl | ⟨front, last, rfl⟩
    · have hname : IsName ([] ++ suffix.toList) := isName_append not_mem_nil hextension
      exact ⟨[suffix.toList], by simpa using hname, rfl⟩
    · refine ⟨front ++ [last ++ suffix.toList], ?_, ?_⟩
      · rw [forall_mem_append, forall_mem_singleton] at hnames ⊢
        exact ⟨hnames.1, isName_append hnames.2.slashFree hextension⟩
      · exact congrArg (List.cons '/') (Text.join_concat_append ..)
  · have hindex : IsName ("index".toList ++ extension.toList) :=
      isName_append (by simp) hextension
    have hne : names ≠ [] := by
      -- An index file in the root directory would get two slashes.
      rintro rfl
      have hdouble : rootOf (absolute [] ++ ("/index" ++ extension).toList) = .doubleSlash := by
        rw [String.toList_append]
        rfl
      rw [hdouble] at hroot
      cases hroot
    refine ⟨names ++ ["index".toList ++ extension.toList], ?_, ?_⟩
    · rw [forall_mem_append, forall_mem_singleton]
      exact ⟨hnames, hindex⟩
    · rw [absolute, absolute, Text.join_append _ hne (by simp), String.toList_append,
        append_assoc]
      rfl

/-- The path at a completed place has its text. -/
theorem toString_ofString_completed {names : List (List Char)}
    (hnames : ∀ name ∈ names, IsName name) (hsuffix : suffix ∈ probeSuffixes)
    (hroot : rootOf (absolute names ++ suffix.toList) = .slash) :
    (Path.ofString (String.ofList (absolute names ++ suffix.toList))).toString.toList =
      absolute names ++ suffix.toList := by
  obtain ⟨completed, hcompleted, heq⟩ := exists_absolute_of_completed hnames hsuffix hroot
  rw [heq, ofString_absolute hcompleted, toList_toString, map_map]
  simp

/-- A place and what completes it differ only by a completed suffix. -/
theorem withoutSuffix_completed_iff (place : List Char) (hsuffix : suffix ∈ probeSuffixes) :
    (withoutSuffix place = withoutSuffix (place ++ suffix.toList) ∨
      withoutSuffix place = finalIndex.eraseAll (withoutSuffix (place ++ suffix.toList))) ↔
    suffix = "" ∨ ¬ EndsInSuffix place := by
  have hends (h : EndsInSuffix place) : withoutSuffix place ≠ slashed place := fun heq =>
    absurd (congrArg List.length heq) (Nat.ne_of_lt h.length_withoutSuffix)
  rcases cases_of_mem_probeSuffixes hsuffix with rfl | ⟨extension, hextension, rfl | rfl⟩
  · simp
  · have hpath := withoutSuffix_append place hextension (.inl rfl)
    rw [append_nil, append_nil] at hpath
    rw [hpath]
    constructor
    · refine fun hsame => .inr fun h => hends h ?_
      rwa [h.slashed.eraseAll_finalIndex, or_self] at hsame
    · rintro (rfl | h)
      · exact absurd (one_lt_length_sourceSuffix hextension) (by decide)
      · exact .inl (withoutSuffix_of_not_endsInSuffix h)
  · have hpath := withoutSuffix_append (place ++ "/index".toList) hextension (.inl rfl)
    rw [append_nil, append_nil, slashed_append, append_assoc, ← String.toList_append] at hpath
    rw [hpath]
    constructor
    · refine fun hsame => .inr fun h => ?_
      rcases hsame with hsame | hsame
      · have hlength := h.length_withoutSuffix
        rw [hsame, length_append] at hlength
        omega
      · exact hends h (hsame.trans (eraseAll_finalIndex _))
    · rintro (hnone | h)
      · have hlength := congrArg (fun s => s.toList.length) hnone
        simp at hlength
      · exact .inr ((withoutSuffix_of_not_endsInSuffix h).trans (eraseAll_finalIndex _).symm)

/-- Nothing, or directories with a slash after them. -/
def Above (above : List Char) : Prop :=
  above = [] ∨ ∃ front, above = front ++ ['/']

/-- Directories can be followed by directories. -/
theorem Above.append {a b : List Char} (ha : Above a) (hb : Above b) : Above (a ++ b) := by
  rcases hb with rfl | ⟨front, rfl⟩
  · rwa [append_nil]
  · exact .inr ⟨a ++ front, (append_assoc ..).symm⟩

/-- Directories are such with slashes for backslashes, too. -/
theorem Above.slashed {above : List Char} (h : Above above) : Above (slashed above) := by
  rcases h with rfl | ⟨front, rfl⟩
  · exact .inl rfl
  · exact .inr ⟨SiteAtlas.slashed front, slashed_append front ['/']⟩

/-- A tail ends a path after directories only. -/
theorem endsWithTail_iff {tail : List Char} :
    endsWithTail path tail = true ↔ ∃ above, Above above ∧ path = above ++ tail := by
  rw [endsWithTail, Bool.or_eq_true, beq_iff_eq, isSuffixOf_iff_suffix]
  constructor
  · rintro (rfl | ⟨front, rfl⟩)
    · exact ⟨[], .inl rfl, rfl⟩
    · exact ⟨front ++ ['/'], .inr ⟨front, rfl⟩, by simp⟩
  · rintro ⟨above, rfl | ⟨front, rfl⟩, rfl⟩
    · exact .inl rfl
    · exact .inr ⟨front, by simp⟩

/-- What follows the last slash of a path text. -/
def lastName (cs : List Char) : List Char :=
  (cs.reverse.takeWhile (· != '/')).reverse

/-- What lies above does not change the last name. -/
theorem lastName_above {above : List Char} (h : Above above) (cs : List Char) :
    lastName (above ++ cs) = lastName cs := by
  rcases h with rfl | ⟨front, rfl⟩
  · rfl
  · unfold lastName
    rw [reverse_append, reverse_append, takeWhile_append]
    split
    next hall =>
      rw [(List.takeWhile_prefix _).eq_of_length hall]
      simp
    next => rfl

/-- A text without slashes is its last name. -/
theorem lastName_of_not_mem {cs : List Char} (h : '/' ∉ cs) : lastName cs = cs := by
  have hall : cs.reverse.takeWhile (· != '/') = cs.reverse :=
    takeWhile_eq_self_iff.mpr fun x hx => by
      rw [bne_iff_ne]
      rintro rfl
      exact h (mem_reverse.mp hx)
  rw [lastName, hall, reverse_reverse]

/-- A path text is its directories and its last name. -/
theorem exists_above_lastName (cs : List Char) :
    ∃ above, Above above ∧ cs = above ++ lastName cs ∧ '/' ∉ lastName cs := by
  by_cases hmem : '/' ∈ cs
  · obtain ⟨last, front, hcs, hfree⟩ := eq_append_cons_of_mem (mem_reverse.mpr hmem)
    have hcs : cs = (front.reverse ++ ['/']) ++ last.reverse := by
      have h := congrArg List.reverse hcs
      simpa using h
    have hfree : '/' ∉ last.reverse := by simpa using hfree
    have habove : Above (front.reverse ++ ['/']) := .inr ⟨front.reverse, rfl⟩
    have hlast : lastName cs = last.reverse := by
      rw [hcs, lastName_above habove, lastName_of_not_mem hfree]
    exact ⟨_, habove, by rw [hlast, hcs], by rwa [hlast]⟩
  · rw [lastName_of_not_mem hmem]
    exact ⟨[], .inl rfl, rfl, hmem⟩

/-- Names with slashes between, and no step aside or up. -/
structure IsSpelled (cs : List Char) : Prop where
  noBackslash : '\\' ∉ cs
  names : ∀ part ∈ Text.splitOn '/' cs, IsName part ∧ part ≠ "..".toList

namespace IsSpelled

variable {cs : List Char}

/-- A spelled text has the parts between slashes. -/
theorem parts_eq (h : IsSpelled cs) : parts cs = Text.splitOn '/' cs := by
  refine filter_eq_self.mpr fun part hpart => ?_
  have hname := (h.names part hpart).1
  simp [hname.ne_nil, hname.ne_dot]

/-- What follows directories is spelled like a path, too. -/
theorem of_above {above : List Char} (h : IsSpelled (above ++ cs)) (habove : Above above) :
    IsSpelled cs := by
  refine ⟨fun hmem => h.noBackslash (mem_append_right above hmem), fun part hpart => ?_⟩
  rcases habove with rfl | ⟨front, rfl⟩
  · exact h.names part hpart
  · refine h.names part ?_
    rw [append_assoc, singleton_append, Text.splitOn_append_cons]
    exact mem_append_right _ hpart

/-- There is a name. -/
theorem ne_nil (h : IsSpelled cs) : cs ≠ [] := by
  rintro rfl
  exact (h.names [] (by simp [Text.splitOn])).1.ne_nil rfl

/-- No name leads up. -/
theorem noDots (h : IsSpelled cs) : "..".toList ∉ parts cs := by
  intro hmem
  rw [h.parts_eq] at hmem
  exact (h.names _ hmem).2 rfl

/-- No slash stands first. -/
theorem head_ne (h : IsSpelled cs) : cs.head? ≠ some '/' := by
  intro hhead
  obtain ⟨rest, rfl⟩ := head?_eq_some_iff.mp hhead
  exact (h.names [] (by simp [Text.splitOn])).1.ne_nil rfl

/-- The last name of a spelled text is a name. -/
theorem isName_lastName (h : IsSpelled cs) : IsName (lastName cs) := by
  obtain ⟨above, habove, hcs, hfree⟩ := exists_above_lastName cs
  have hlast : IsSpelled (lastName cs) := of_above (hcs ▸ h) habove
  exact (hlast.names _ (by rw [Text.splitOn_of_not_mem hfree]; simp)).1

end IsSpelled

/-- An import may end a path without suffix, or without index name. -/
theorem mem_actionTails_iff {tail : List Char} : tail ∈ actionTails path ↔
      withoutSuffix path = tail ∨ withoutSuffix path = tail ++ "/index".toList := by
  unfold actionTails
  simp only [isSuffixOf_iff_suffix]
  have hdrop (x : List Char) :
      (x ++ "/index".toList).take ((x ++ "/index".toList).length - "/index".length) = x := by
    rw [length_append, String.length_toList, Nat.add_sub_cancel, take_left]
  split
  next hindex =>
    obtain ⟨x, hx⟩ := hindex
    rw [← hx, hdrop, mem_pair, append_cancel_right_eq, eq_comm, eq_comm (a := tail)]
  next hindex =>
    rw [mem_singleton, eq_comm, or_iff_left]
    exact fun h => hindex ⟨tail, h.symm⟩

/-- What is left is compared without slashes around it. -/
theorem tailMatches_iff_trimmed {rest tail : List Char}
    (htail : Text.trimWhile (· == '/') rest = tail) :
    tailMatches path rest = true ↔ tail ≠ [] ∧ ∃ above, Above above ∧
      (withoutSuffix path = above ++ tail ∨
        withoutSuffix path = above ++ tail ++ "/index".toList) := by
  unfold tailMatches
  simp only [htail, Bool.and_eq_true, Bool.not_eq_true', isEmpty_eq_false_iff, any_eq_true,
    mem_actionTails_iff, endsWithTail_iff]
  refine and_congr_right fun _ => ⟨?_, ?_⟩
  · rintro ⟨_, hpath, above, habove, rfl⟩
    exact ⟨above, habove, hpath⟩
  · rintro ⟨above, habove, hpath⟩
    exact ⟨_, hpath, above, habove, rfl⟩

/-- A text without slashes around it is compared as it is. -/
theorem tailMatches_iff {tail : List Char} (hhead : tail.head? ≠ some '/')
    (hlast : lastName tail ≠ []) : tailMatches path tail = true ↔
      ∃ above, Above above ∧ (withoutSuffix path = above ++ tail ∨
        withoutSuffix path = above ++ tail ++ "/index".toList) := by
  have hstart {cs : List Char} (h : cs.head? ≠ some '/') : cs.dropWhile (· == '/') = cs := by
    cases cs with
    | nil => rfl
    | cons c rest => exact dropWhile_cons_of_neg (by simpa using h)
  have hne : tail ≠ [] := by
    rintro rfl
    exact hlast rfl
  have hend : tail.reverse.head? ≠ some '/' := by
    rw [head?_reverse]
    intro hslash
    obtain ⟨front, rfl⟩ := getLast?_eq_some_iff.mp hslash
    have hnone := lastName_above (.inr ⟨front, rfl⟩) []
    rw [append_nil] at hnone
    exact hlast hnone
  rw [tailMatches_iff_trimmed, and_iff_right hne]
  rw [Text.trimWhile, hstart hhead, Text.trimEndWhile, hstart hend, reverse_reverse]

/-- An import that is completed to a path ends it. -/
theorem tailMatches_completed {above tail : List Char} (habove : Above above)
    (htail : IsSpelled tail) (hsuffix : suffix ∈ probeSuffixes) (hne : suffix ≠ "") :
    tailMatches (above ++ tail ++ suffix.toList) tail = true := by
  refine (tailMatches_iff htail.head_ne htail.isName_lastName.ne_nil).mpr
    ⟨slashed above, habove.slashed, ?_⟩
  have hslashed : slashed (above ++ tail) = slashed above ++ tail := by
    rw [slashed_append, slashed_of_not_mem htail.noBackslash]
  rcases cases_of_mem_probeSuffixes hsuffix with rfl | ⟨extension, hextension, rfl | rfl⟩
  · exact absurd rfl hne
  · have hpath := withoutSuffix_append (above ++ tail) hextension (.inl rfl)
    rw [append_nil, append_nil, hslashed] at hpath
    exact .inl hpath
  · have hpath := withoutSuffix_append (above ++ tail ++ "/index".toList) hextension (.inl rfl)
    rw [append_nil, append_nil, slashed_append, hslashed, append_assoc] at hpath
    refine .inr ?_
    rw [String.toList_append]
    exact hpath

section SpelledOut

variable {above tail stem : List Char} {extension : String} (habove : Above above)
  (htail : IsSpelled tail) (hextension : extension ∈ Tree.sourceSuffixes)
  (hlast : lastName tail = stem ++ extension.toList)
include habove htail hextension hlast

omit habove in
/-- A suffix is dropped from the last name. -/
theorem exists_withoutSuffix_spelled (above : List Char) :
    ∃ front, Above front ∧ tail = front ++ stem ++ extension.toList ∧ '/' ∉ stem ∧
      withoutSuffix tail = front ++ stem ∧
      withoutSuffix (above ++ tail) = slashed above ++ (front ++ stem) := by
  obtain ⟨front, hfront, htext, hfree⟩ := exists_above_lastName tail
  rw [hlast] at htext hfree
  have htext : tail = front ++ stem ++ extension.toList := by rw [append_assoc]; exact htext
  have hsame : slashed (front ++ stem) = front ++ stem := by
    refine slashed_of_not_mem fun hmem => htail.noBackslash ?_
    rw [htext]
    exact mem_append_left _ hmem
  have hwithout := withoutSuffix_append (front ++ stem) hextension (.inl rfl)
  have hbelow := withoutSuffix_append (above ++ (front ++ stem)) hextension (.inl rfl)
  rw [append_nil, append_nil, ← htext, hsame] at hwithout
  rw [append_nil, append_nil, append_assoc, ← htext, slashed_append, hsame] at hbelow
  exact ⟨front, hfront, htext, fun hmem => hfree (mem_append_left _ hmem), hwithout, hbelow⟩

/-- Without its suffix, a spelled import ends its path. -/
theorem tailMatches_withoutSuffix (hstem : stem ≠ []) :
    tailMatches (above ++ tail) (withoutSuffix tail) = true := by
  obtain ⟨front, hfront, htext, hfree, hwithout, hbelow⟩ :=
    exists_withoutSuffix_spelled htail hextension hlast above
  rw [hwithout, tailMatches_iff]
  · exact ⟨slashed above, habove.slashed, .inl hbelow⟩
  · have hhead := htail.head_ne
    rwa [htext, head?_append_of_ne_nil _ (by simp [hstem])] at hhead
  · rwa [lastName_above hfront, lastName_of_not_mem hfree]

/-- With its suffix, a spelled import does not end its path. -/
theorem tailMatches_spelled_out (hstem : stem ≠ "index".toList) :
    ¬ tailMatches (above ++ tail) tail = true := by
  obtain ⟨front, hfront, htext, hfree, -, hbelow⟩ :=
    exists_withoutSuffix_spelled htail hextension hlast above
  have hname : lastName (withoutSuffix (above ++ tail)) = stem := by
    rw [hbelow, lastName_above habove.slashed, lastName_above hfront, lastName_of_not_mem hfree]
  rw [tailMatches_iff htail.head_ne htail.isName_lastName.ne_nil]
  rintro ⟨other, hother, hpath | hpath⟩
  · rw [hpath, lastName_above hother, hlast] at hname
    obtain ⟨rest, hrest, -⟩ := exists_cons_of_mem_sourceSuffixes hextension (.inl rfl)
    rw [append_nil] at hrest
    simp [hrest] at hname
  · have hindex : Above (other ++ tail ++ ['/']) := .inr ⟨_, rfl⟩
    have hsplit : other ++ tail ++ "/index".toList = other ++ tail ++ ['/'] ++ "index".toList := by
      simp
    rw [hpath, hsplit, lastName_above hindex] at hname
    exact hstem hname.symm

end SpelledOut

end SiteAtlas
