import Mathlib.Data.List.TakeWhile
import SiteAtlas.Proofs.ImportRoundtrip
import SiteAtlas.Proofs.PageIdentity

/-!
# Path texts and their names

A path text stands for a row of names. Joining texts joins the rows, and normalising only resolves
double dots, so plain names below a directory stay as they were written.
-/

namespace SiteAtlas

open List

variable {names : List (List Char)} {dir rest : List Char}

/-- Both ways to join texts agree. -/
theorem Text.join_eq_intercalate (separator : List Char) (parts : List (List Char)) :
    Text.join separator parts = separator.intercalate parts := by
  induction parts with
  | nil => rfl
  | cons part parts ih =>
    cases parts with
    | nil => simp [Text.join]
    | cons next others =>
      rw [Text.join, ih, intercalate_cons_of_ne_nil (cons_ne_nil next others)]
      exact cons_ne_nil next others

/-- Joined names have slashes between. -/
theorem Text.toList_joinStrings (names : List String) :
    (Text.joinStrings "/" names).toList = Text.join ['/'] (names.map String.toList) := by
  rw [Text.join_eq_intercalate, Text.joinStrings, String.toList_intercalate]
  rfl

/-- Joining goes part by part. -/
theorem Text.join_cons (separator part : List Char) {parts : List (List Char)} (h : parts ≠ []) :
    Text.join separator (part :: parts) = part ++ separator ++ Text.join separator parts := by
  obtain ⟨next, others, rfl⟩ := exists_cons_of_ne_nil h
  rw [Text.join, append_assoc]
  exact cons_ne_nil next others

/-- Two joined rows have the separator between them. -/
theorem Text.join_append (separator : List Char) {a b : List (List Char)} (ha : a ≠ [])
    (hb : b ≠ []) :
    Text.join separator (a ++ b) = Text.join separator a ++ separator ++ Text.join separator b := by
  induction a with
  | nil => exact absurd rfl ha
  | cons part a ih =>
    cases a with
    | nil => exact Text.join_cons separator part hb
    | cons next others =>
      have hne : next :: others ≠ [] := cons_ne_nil next others
      rw [cons_append, Text.join_cons separator part (append_ne_nil_of_left_ne_nil hne b),
        ih hne, Text.join_cons separator part hne]
      simp only [append_assoc]

/-- What follows joined parts belongs to the last of them. -/
theorem Text.join_concat_append (separator : List Char) (front : List (List Char))
    (last more : List Char) : Text.join separator (front ++ [last]) ++ more =
      Text.join separator (front ++ [last ++ more]) := by
  by_cases hfront : front = []
  · simp [hfront, Text.join]
  · rw [Text.join_append _ hfront (by simp), Text.join_append _ hfront (by simp), append_assoc]
    rfl

namespace PathText

/-- What may stand between slashes and carries a meaning. -/
structure IsName (part : List Char) : Prop where
  ne_nil : part ≠ []
  ne_dot : part ≠ ['.']
  slashFree : '/' ∉ part

/-- What stands between slashes, without empty names and dots. -/
def parts (cs : List Char) : List (List Char) :=
  (Text.splitOn '/' cs).filter fun part => !part.isEmpty && part != ['.']

/-- All parts of a text are names. -/
theorem isName_of_mem_parts {cs part : List Char} (h : part ∈ parts cs) : IsName part := by
  obtain ⟨hmem, hkept⟩ := mem_filter.mp h
  have hkept : part ≠ [] ∧ part ≠ ['.'] := by simpa using hkept
  exact ⟨hkept.1, hkept.2, Text.not_mem_of_mem_splitOn '/' cs part hmem⟩

/-- A slash separates the parts of a text. -/
theorem parts_append (a b : List Char) : parts (a ++ '/' :: b) = parts a ++ parts b := by
  rw [parts, Text.splitOn_append_cons, filter_append]
  rfl

/-- A name is its only part. -/
theorem parts_name {part : List Char} (h : IsName part) : parts part = [part] := by
  rw [parts, Text.splitOn_of_not_mem h.slashFree]
  simp [h.ne_nil, h.ne_dot]

/-- Joined names are the parts. -/
theorem parts_join (h : ∀ name ∈ names, IsName name) : parts (Text.join ['/'] names) = names := by
  induction names with
  | nil => rfl
  | cons name names ih =>
    have hname := h name mem_cons_self
    have hnames := ih fun other hother => h other (mem_cons_of_mem name hother)
    cases names with
    | nil => exact parts_name hname
    | cons next others =>
      have hjoin : Text.join ['/'] (name :: next :: others) =
          name ++ '/' :: Text.join ['/'] (next :: others) := by simp [Text.join]
      rw [hjoin, parts_append, parts_name hname, hnames]
      rfl

/-- The text of an absolute path. -/
def absolute (names : List (List Char)) : List Char :=
  '/' :: Text.join ['/'] names

/-- The names of an absolute text. -/
theorem parts_absolute (h : ∀ name ∈ names, IsName name) : parts (absolute names) = names := by
  have hslash := parts_append [] (Text.join ['/'] names)
  rw [parts_join h] at hslash
  exact hslash

/-- Joined names begin with no slash. -/
theorem head_join_ne_slash (h : ∀ name ∈ names, IsName name) :
    (Text.join ['/'] names).head? ≠ some '/' := by
  cases names with
  | nil => simp [Text.join]
  | cons name names =>
    have hname := h name mem_cons_self
    obtain ⟨c, others, rfl⟩ := exists_cons_of_ne_nil hname.ne_nil
    have hc : c ≠ '/' := fun heq => hname.slashFree (heq ▸ mem_cons_self)
    cases names <;> simpa [Text.join] using hc

/-- An absolute text begins with one slash. -/
theorem rootOf_absolute (h : ∀ name ∈ names, IsName name) : rootOf (absolute names) = .slash := by
  have hfirst := head_join_ne_slash h
  unfold rootOf absolute
  cases hjoin : Text.join ['/'] names with
  | nil => rfl
  | cons c others =>
    have hc : c ≠ '/' := by simpa [hjoin] using hfirst
    simp [hc]

/-- A path that is read from a text begins where the text does. -/
theorem root_ofString (cs : List Char) : (Path.ofString (String.ofList cs)).root = rootOf cs := by
  rw [Path.ofString, String.toList_ofList]

/-- The path that an absolute text stands for. -/
theorem ofString_absolute (h : ∀ name ∈ names, IsName name) :
    Path.ofString (String.ofList (absolute names)) = ⟨.slash, names.map String.ofList⟩ := by
  unfold Path.ofString
  rw [String.toList_ofList, rootOf_absolute h]
  exact congrArg (Path.mk .slash) (congrArg (List.map String.ofList) (parts_absolute h))

/-- The text of a path below the root directory. -/
theorem toList_toString (names : List String) :
    (Path.mk .slash names).toString.toList = absolute (names.map String.toList) := by
  have htext : (Path.mk .slash names).toString = "/" ++ Text.joinStrings "/" names := by
    simp [Path.toString, PathRoot.text]
  rw [htext, String.toList_append, Text.toList_joinStrings]
  rfl

/-- Resolving dots adds no name. -/
theorem mem_of_mem_resolveDots {rooted : Bool} {kept : List (List Char)} {name : List Char}
    (h : name ∈ resolveDots rooted kept names) : name ∈ kept ∨ name ∈ names := by
  fun_induction resolveDots rooted kept names with
  | case1 kept => exact .inl (mem_reverse.mp h)
  | case2 kept part rest hpart ih => grind
  | case3 part rest hpart ih => grind
  | case4 part rest hpart last others hlast ih => grind
  | case5 part rest hpart last others hlast ih => grind

/-- Names without double dots are kept as they are. -/
theorem resolveDots_of_not_mem {rooted : Bool} (h : "..".toList ∉ names) (kept : List (List Char)) :
    resolveDots rooted kept names = kept.reverse ++ names := by
  induction names generalizing kept with
  | nil => simp [resolveDots]
  | cons name names ih =>
    obtain ⟨hname, hnames⟩ := ne_and_not_mem_of_not_mem_cons h
    have hkept : (name != "..".toList) = true := by simpa using hname.symm
    rw [resolveDots.eq_def]
    simp only [hkept, if_true, ih hnames, reverse_cons, append_assoc, singleton_append]

/-- Names without double dots do not change what stands before them. -/
theorem resolveDots_append {rooted : Bool} (h : "..".toList ∉ names)
    (kept before : List (List Char)) :
    resolveDots rooted kept (before ++ names) = resolveDots rooted kept before ++ names := by
  fun_induction resolveDots rooted kept before with
  | case1 kept => exact resolveDots_of_not_mem h kept
  | case2 kept part rest hpart ih =>
    rw [cons_append, resolveDots.eq_def]
    simp only [if_pos hpart, ih]
  | case3 part rest hpart ih => rw [cons_append, resolveDots, if_neg hpart, ih]
  | case4 part rest hpart last others hlast ih =>
    rw [cons_append, resolveDots, if_neg hpart]
    simp only [if_pos hlast, ih]
  | case5 part rest hpart last others hlast ih =>
    rw [cons_append, resolveDots, if_neg hpart]
    simp only [if_neg hlast, ih]

/-- The names of a rooted text once its double dots are resolved. -/
def resolved (cs : List Char) : List (List Char) :=
  resolveDots true [] (parts cs)

/-- Resolved names are names. -/
theorem isName_of_mem_resolved {cs name : List Char} (h : name ∈ resolved cs) : IsName name := by
  rcases mem_of_mem_resolveDots h with hkept | hpart
  · simp at hkept
  · exact isName_of_mem_parts hpart

/-- Normalising a rooted text keeps the root and the resolved names. -/
theorem normalize_of_slash {cs : List Char} (h : rootOf cs = .slash) :
    normalize cs = absolute (resolved cs) := by
  unfold normalize
  simp only [h]
  rfl

/-- A slash is put between joined texts unless there is one. -/
theorem join_cases (hdir : dir ≠ []) (hrest : rest.head? ≠ some '/') :
    (∃ front, dir = front ++ ['/'] ∧ join dir rest = front ++ '/' :: rest) ∨
      dir.getLast? ≠ some '/' ∧ join dir rest = dir ++ '/' :: rest := by
  have habsolute : ¬ "/".toList.isPrefixOf rest = true := by
    cases rest with
    | nil => simp
    | cons c rest =>
      have hc : c ≠ '/' := by simpa using hrest
      simpa using hc.symm
  unfold join
  rw [if_neg habsolute]
  by_cases hslash : dir.getLast? = some '/'
  · obtain ⟨front, rfl⟩ := getLast?_eq_some_iff.mp hslash
    exact .inl ⟨front, rfl, by simp⟩
  · exact .inr ⟨hslash, if_neg (by simp [hdir, hslash])⟩

/-- A joined text begins where its first part does. -/
theorem rootOf_join_eq (hne : dir ≠ []) (hrest : rest.head? ≠ some '/') :
    rootOf (join dir rest) = rootOf dir := by
  have hstop : rest.takeWhile (· == '/') = [] := by
    cases rest with
    | nil => rfl
    | cons c rest => exact takeWhile_cons_of_neg (by simpa using hrest)
  have hslashes : (join dir rest).takeWhile (· == '/') = dir.takeWhile (· == '/') := by
    rcases join_cases hne hrest with ⟨front, rfl, hjoin⟩ | ⟨hlast, hjoin⟩
    · rw [hjoin, ← singleton_append, ← append_assoc, takeWhile_append, hstop]
      split
      next hall =>
        exact (append_nil _).trans ((List.takeWhile_prefix _).eq_of_length hall).symm
      next => rfl
    · rw [hjoin, takeWhile_append, if_neg]
      intro hlength
      have hall := (List.takeWhile_prefix _).eq_of_length hlength
      have hend : dir.getLast hne ∈ dir.takeWhile (· == '/') := by
        rw [hall]
        exact getLast_mem hne
      exact hlast ((getLast?_eq_some_getLast hne).trans
        (congrArg some (by simpa using mem_takeWhile_imp hend)))
  rw [rootOf, rootOf, hslashes]

/-- A text below the root directory stays so when more is joined. -/
theorem rootOf_join (hdir : rootOf dir = .slash) (hrest : rest.head? ≠ some '/') :
    rootOf (join dir rest) = .slash := by
  have hne : dir ≠ [] := by
    rintro rfl
    simp [rootOf] at hdir
  rw [rootOf_join_eq hne hrest, hdir]

/-- The names of a joined text. -/
theorem parts_pathJoin (hdir : dir ≠ []) (hrest : rest.head? ≠ some '/') :
    parts (join dir rest) = parts dir ++ parts rest := by
  rcases join_cases hdir hrest with ⟨front, rfl, hjoin⟩ | ⟨-, hjoin⟩
  · have hfront : parts (front ++ ['/']) = parts front ++ parts [] := parts_append front []
    rw [hjoin, parts_append, hfront]
    simp [parts, Text.splitOn]
  · rw [hjoin, parts_append]

/-- Names below a directory stay when the text is normalised. -/
theorem normalize_join (hdir : rootOf dir = .slash) (hrest : rest.head? ≠ some '/')
    (hdots : "..".toList ∉ parts rest) :
    normalize (join dir rest) = absolute (resolved dir ++ parts rest) := by
  have hne : dir ≠ [] := by
    rintro rfl
    simp [rootOf] at hdir
  rw [normalize_of_slash (rootOf_join hdir hrest), resolved, parts_pathJoin hne hrest,
    resolveDots_append hdots]
  rfl

/-- The text of names below the names of a root. -/
theorem absolute_below (root : Path) (hroot : root.root = .slash) (hne : names ≠ []) :
    absolute (root.names.map String.toList ++ names) = root.beginning ++ Text.join ['/'] names := by
  rw [absolute, Path.beginning, hroot]
  by_cases hnames : root.names = []
  · rw [if_pos hnames, hnames]
    rfl
  · rw [if_neg hnames, Text.join_append _ (by simpa using hnames) hne, Text.toList_joinStrings]
    rfl

end PathText

end SiteAtlas
