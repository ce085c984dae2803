import SiteAtlas.Proofs.Identity
import SiteAtlas.Proofs.NeededTexts
import SiteAtlas.Proofs.PathTexts
import SiteAtlas.Proofs.Refusals

/-!
# Routes of directories

Names on the way to a special file spell its route: fixed names stand for themselves, brackets for a
parameter or all remaining segments, groups and slots for nothing. They are joined, cut again and
rewritten by patterns that know nothing of each other, and still every name counts by itself
(`map_segmentRoute_directories`).

Any route begins with a slash, and slashes only stand before segments that are not empty.
-/

namespace SiteAtlas

open List

variable {segment : List Char}

namespace Pattern

variable {p : Pattern} {replacement : Match → List Char} {cs : List Char}

/-- After replacing, all was there before or was put in. -/
theorem mem_replaceAll {x : Char} (h : x ∈ p.replaceAll replacement cs) :
    x ∈ cs ∨ ∃ m ∈ p.findAll cs, x ∈ replacement m := by
  obtain ⟨piece, hpiece, hx⟩ := mem_flatMap.mp h
  cases piece with
  | plain c =>
    obtain rfl := mem_singleton.mp hx
    exact .inl (p.mem_of_plain_mem_piecesFrom 0 [] 0 cs _ hpiece)
  | hit m => exact .inr ⟨m, mem_filterMap.mpr ⟨.hit m, hpiece, rfl⟩, hx⟩

/-- Replacing empties no text. -/
theorem replaceAll_ne_nil (hreplacement : ∀ m, replacement m ≠ []) (hne : cs ≠ []) :
    p.replaceAll replacement cs ≠ [] := by
  obtain ⟨c, rest, rfl⟩ := exists_cons_of_ne_nil hne
  rw [replaceAll, pieces, piecesFrom]
  cases p.matchAt [] 0 (c :: rest) with
  | some m => simp [hreplacement m]
  | none => simp

/-- A text that is read as a whole is replaced as a whole. -/
theorem Reads.replaceAll_eq {captured : List (Nat × List Char)} (h : p.Reads cs [] captured)
    (replacement : Match → List Char) (hne : cs ≠ []) :
    ∃ m, p.replaceAll replacement cs = replacement m ∧
      ∀ index, m.group? index = captured.lookup index := by
  obtain ⟨m, hmatch, htext, hgroups⟩ := h.exists_matchAt [] 0
  have hpieces := piecesFrom_hit hne hmatch htext
  rw [append_nil] at hpieces
  refine ⟨m, ?_, hgroups⟩
  rw [replaceAll, pieces, hpieces, piecesFrom, flatMap_singleton]

end Pattern

/-- Joined parts without the separator are split again. -/
theorem Text.splitOn_join {separator : Char} {parts : List (List Char)} (hne : parts ≠ [])
    (h : ∀ part ∈ parts, separator ∉ part) :
    Text.splitOn separator (Text.join [separator] parts) = parts := by
  induction parts with
  | nil => exact absurd rfl hne
  | cons part parts ih =>
    have hpart := Text.splitOn_of_not_mem (h part mem_cons_self)
    cases parts with
    | nil => exact hpart
    | cons next others =>
      have hrest := ih (cons_ne_nil next others)
        fun other hother => h other (mem_cons_of_mem part hother)
      rw [Text.join, append_assoc, singleton_append, Text.splitOn_append_cons, hpart,
        hrest, singleton_append]
      exact cons_ne_nil next others

namespace Route

/-- The shape of a route: a slash, no two slashes in a row, and none at the end but for the root. -/
structure IsRoute (route : List Char) : Prop where
  begins : route.head? = some '/'
  single : ¬ ['/', '/'] <:+: route
  ends : route.getLast? = some '/' → route = ['/']

/-- A segment: not empty, no slash. -/
def IsSegment (segment : List Char) : Prop :=
  segment ≠ [] ∧ '/' ∉ segment

/-- Before a text without double slashes, a segment makes none. -/
theorem not_doubled_cons {rest : List Char} (hsegment : IsSegment segment)
    (hrest : ¬ ['/', '/'] <:+: rest) : ¬ ['/', '/'] <:+: '/' :: (segment ++ rest) := by
  have hpassed : ∀ part : List Char, '/' ∉ part → ¬ ['/', '/'] <:+: part ++ rest := by
    intro part hpart
    induction part with
    | nil => exact hrest
    | cons x part ih =>
      rw [mem_cons, not_or] at hpart
      rw [cons_append, infix_cons_iff, not_or]
      exact ⟨fun hdoubled => hpart.1 (cons_prefix_cons.mp hdoubled).1, ih hpart.2⟩
  obtain ⟨x, part, rfl⟩ := exists_cons_of_ne_nil hsegment.1
  rw [infix_cons_iff, not_or]
  refine ⟨fun hdoubled => ?_, hpassed _ hsegment.2⟩
  have hslash := (cons_prefix_cons.mp (cons_prefix_cons.mp hdoubled).2).1
  exact hsegment.2 (hslash ▸ mem_cons_self)

/-- Joined segments are a route. -/
theorem isRoute_join {segments : List (List Char)} (h : ∀ segment ∈ segments, IsSegment segment) :
    IsRoute ('/' :: Text.join ['/'] segments) := by
  refine ⟨rfl, ?_, ?_⟩
  · induction segments with
    | nil => simp [Text.join, infix_cons_iff]
    | cons segment segments ih =>
      have hsegment := h segment mem_cons_self
      cases segments with
      | nil =>
        have hlast : ¬ ['/', '/'] <:+: '/' :: (segment ++ []) :=
          not_doubled_cons hsegment (by simp)
        rwa [append_nil] at hlast
      | cons next others =>
        rw [Text.join, append_assoc, singleton_append]
        · exact not_doubled_cons hsegment (ih fun other hother =>
            h other (mem_cons_of_mem segment hother))
        · exact cons_ne_nil next others
  · intro hlast
    rcases eq_nil_or_concat' segments with rfl | ⟨before, last, rfl⟩
    · rfl
    · -- The last character of the text is the last one of the last segment.
      obtain ⟨hne, hfree⟩ := h last (by simp)
      have hjoin : Text.join ['/'] (before ++ [last]) = Text.join ['/'] (before ++ [[]]) ++ last :=
        (Text.join_concat_append ['/'] before [] last).symm
      rw [hjoin, ← cons_append, getLast?_append_of_ne_nil _ hne] at hlast
      exact absurd (mem_of_getLast? hlast) hfree

/-- A segment stays one when its brackets are rewritten. -/
theorem isSegment_segmentRoute (h : IsSegment segment) : IsSegment (segmentRoute segment) := by
  refine ⟨Pattern.replaceAll_ne_nil (fun m => cons_ne_nil _ _)
    (Pattern.replaceAll_ne_nil (fun m => cons_ne_nil _ _) h.1), fun hslash => ?_⟩
  rcases Pattern.mem_replaceAll hslash with hslash | ⟨m, hm, hslash⟩
  · rcases Pattern.mem_replaceAll hslash with hslash | ⟨m, -, hslash⟩
    · exact h.2 hslash
    · simp at hslash
  · have hname : bracketed.CapturesOnly (· ≠ '/') :=
      ⟨⟨trivial, Text.ne_slash_of_isWord, trivial⟩, trivial⟩
    rcases mem_cons.mp hslash with hcolon | hslash
    · cases hcolon
    · exact hname.group bracketed _ m hm 1 '/' hslash rfl

/-- The route of a file always has the shape of a route. -/
theorem isRoute_ofFilePath (path : List Char) (router : Router) :
    IsRoute (ofFilePath path router) := by
  refine isRoute_join fun segment hsegment => ?_
  obtain ⟨name, hname, rfl⟩ := mem_map.mp hsegment
  apply isSegment_segmentRoute
  have hpart : name ∈ pathSegments path := by
    have hkept := mem_of_mem_filter hname
    unfold withoutIndexName at hkept
    split at hkept
    · split at hkept
      · exact dropLast_subset _ hkept
      · exact hkept
    · exact hkept
  obtain ⟨hmem, hne⟩ := mem_filter.mp hpart
  exact ⟨by simpa using hne, Text.not_mem_of_mem_splitOn '/' _ name hmem⟩

/-- A name of a directory that stands for itself in routes. -/
structure IsFixed (name : List Char) : Prop where
  ne_nil : name ≠ []
  separators : '/' ∉ name ∧ '\\' ∉ name
  brackets : '[' ∉ name ∧ ']' ∉ name
  begins : headIs (fun c => c == '(' || c == '@') name = false

/-- A name in the brackets of a parameter. -/
structure ParameterName where
  text : List Char
  ne_nil : text ≠ []
  isWord : ∀ c ∈ text, Text.isWord c = true

/-- A directory on the way to a special file. -/
inductive Directory where
  | fixed (name : List Char) (h : IsFixed name)
  /-- One segment of any text. -/
  | parameter (name : ParameterName)
  /-- All segments that remain, at least one. -/
  | remainder (name : ParameterName)
  /-- All segments that remain, if any. -/
  | optionalRemainder (name : ParameterName)
  /-- Files that are kept together without a segment of their own. -/
  | group (name : List Char) (separators : '/' ∉ name ∧ '\\' ∉ name)
  /-- A part of the page above. -/
  | slot (name : List Char) (separators : '/' ∉ name ∧ '\\' ∉ name)

namespace Directory

/-- The name of a directory. -/
def text : Directory → List Char
  | fixed name _ => name
  | parameter name => '[' :: (name.text ++ [']'])
  | remainder name => '[' :: ("...".toList ++ (name.text ++ [']']))
  | optionalRemainder name => '[' :: '[' :: ("...".toList ++ (name.text ++ [']', ']']))
  | group name _ => '(' :: (name ++ [')'])
  | slot name _ => '@' :: name

/-- The segment that a directory adds to a route. -/
def segment? : Directory → Option (List Char)
  | fixed name _ => some name
  | parameter name => some (':' :: name.text)
  | remainder _ | optionalRemainder _ => some ['*']
  | group _ _ | slot _ _ => none

end Directory

/-- A name in brackets holds no character but those of words. -/
theorem ParameterName.not_mem (name : ParameterName) {c : Char} (h : Text.isWord c = false) :
    c ∉ name.text :=
  fun hc => Bool.noConfusion (h.symm.trans (name.isWord c hc))

/-- Directories have names, and these hold no separator. -/
theorem Directory.text_separators (d : Directory) : d.text ≠ [] ∧ '/' ∉ d.text ∧ '\\' ∉ d.text := by
  cases d with
  | fixed name h => exact ⟨h.ne_nil, h.separators⟩
  | parameter name | remainder name | optionalRemainder name =>
    have hslash : '/' ∉ name.text := name.not_mem (by decide)
    have hback : '\\' ∉ name.text := name.not_mem (by decide)
    simp [text, hslash, hback]
  | group name h | slot name h => simp [text, h]

/-- A name that begins with neither mark is not passed over. -/
theorem isGrouping_cons {c : Char} (hgroup : c ≠ '(') (hslot : c ≠ '@') (rest : List Char) :
    isGrouping (c :: rest) = false := by
  have hopen : "(".toList.isPrefixOf (c :: rest) = false := by
    simp [List.isPrefixOf, Ne.symm hgroup]
  have hat : "@".toList.isPrefixOf (c :: rest) = false := by
    simp [List.isPrefixOf, Ne.symm hslot]
  rw [isGrouping, hopen, hat, Bool.false_and, Bool.false_or]

/-- Exactly the directories that add no segment are passed over. -/
theorem Directory.isGrouping_text (d : Directory) : isGrouping d.text = d.segment?.isNone := by
  cases d with
  | fixed name h =>
    obtain ⟨c, rest, rfl⟩ := exists_cons_of_ne_nil h.ne_nil
    have hbegins : (c == '(' || c == '@') = false := h.begins
    rw [Bool.or_eq_false_iff, beq_eq_false_iff_ne, beq_eq_false_iff_ne] at hbegins
    exact isGrouping_cons hbegins.1 hbegins.2 rest
  | parameter name | remainder name | optionalRemainder name =>
    exact isGrouping_cons (by decide) (by decide) _
  | group name h =>
    have hends : ")".toList.isSuffixOf ('(' :: (name ++ [')'])) = true :=
      isSuffixOf_iff_suffix.mpr ⟨'(' :: name, rfl⟩
    rw [isGrouping, text, hends]
    rfl
  | slot name h => simp [isGrouping, text, segment?, List.isPrefixOf]

/-- The pattern of all remaining segments begins with a bracket. -/
theorem begins_catchAll : catchAll.Begins (· == '[') := fun _ h => h

/-- A bracketed name begins with a bracket. -/
theorem begins_bracketed : bracketed.Begins (· == '[') := fun _ h => h

/-- A text without an opening bracket is left as it is. -/
theorem segmentRoute_of_not_mem (h : '[' ∉ segment) : segmentRoute segment = segment := by
  have hfree : ∀ x ∈ segment, (x == '[') = false :=
    fun x hx => beq_eq_false_iff_ne.mpr fun heq => h (heq ▸ hx)
  rw [segmentRoute, Pattern.replaceAll_eq_self _ begins_catchAll hfree,
    Pattern.replaceAll_eq_self _ begins_bracketed hfree]

/-- What is read as all remaining segments becomes a star. -/
theorem segmentRoute_of_catchAll {captured : List (Nat × List Char)}
    (h : catchAll.Reads segment [] captured) (hne : segment ≠ []) :
    segmentRoute segment = ['*'] := by
  obtain ⟨m, hstar, -⟩ := h.replaceAll_eq (fun _ => ['*']) hne
  rw [segmentRoute, hstar]
  exact Pattern.replaceAll_eq_self _ begins_bracketed (by simp)

namespace ParameterName

open Pattern

variable (name : ParameterName)

/-- A name is read up to its bracket. -/
theorem reads_word (rest : List Char) :
    (capture 1 word).Reads name.text (']' :: rest) [(1, name.text)] := by
  have hstop : headIs Text.isWord (']' :: rest) = false := by
    change Text.isWord ']' = false
    decide
  exact (reads_many1 name.ne_nil name.isWord hstop).capture 1

/-- A bracketed name is read. -/
theorem reads_bracketed : bracketed.Reads ('[' :: (name.text ++ [']'])) [] [(1, name.text)] := by
  have hreads := ((reads_char '[' _).seq (name.reads_word [])).seq (reads_char ']' [])
  exact hreads.of_eq (by simp) rfl

/-- A name after points in brackets means all that remain. -/
theorem reads_remainder :
    catchAll.Reads ('[' :: ("...".toList ++ (name.text ++ [']']))) [] [(1, name.text)] := by
  have hopen : (char '[').FailsAt ("...".toList ++ (name.text ++ [']'])) :=
    failsAt_of_spells fun spelled more hspells heq => by
      rw [spells_char.mp hspells] at heq
      simp at heq
  have hclose : (char ']').FailsAt [] :=
    failsAt_of_spells fun spelled more hspells heq => by
      rw [spells_char.mp hspells] at heq
      cases heq
  have hreads := (((((reads_char '[' _).seq hopen.optional).seq (reads_text "..." _)).seq
    (name.reads_word [])).seq (reads_char ']' [])).seq hclose.optional
  exact hreads.of_eq (by simp) rfl

/-- A name after points in two brackets means all that remain. -/
theorem reads_optionalRemainder :
    catchAll.Reads ('[' :: '[' :: ("...".toList ++ (name.text ++ [']', ']']))) []
      [(1, name.text)] := by
  have hreads := (((((reads_char '[' _).seq (reads_char '[' _).optional).seq
    (reads_text "..." _)).seq (name.reads_word [']'])).seq (reads_char ']' [']'])).seq
    (reads_char ']' []).optional
  exact hreads.of_eq (by simp) rfl

/-- A name without points does not mean all that remain. -/
theorem failsAt_catchAll : catchAll.FailsAt ('[' :: (name.text ++ [']'])) := by
  have hneeds : catchAll.Needs "..." ']' :=
    (needs_chain_append [char '[', optional (char '[')] rfl
      ((opens_text "...").append.needs (by decide))).of_parts
  refine hneeds ('[' :: name.text) [] (Text.not_infix_of_not_mem (x := '.') (by decide) ?_)
  rw [mem_cons, not_or]
  exact ⟨by decide, name.not_mem (by decide)⟩

/-- A name in brackets becomes a parameter. -/
theorem segmentRoute_brackets : segmentRoute ('[' :: (name.text ++ [']'])) = ':' :: name.text := by
  have hinside : '[' ∉ name.text ++ [']'] := by
    simp [name.not_mem (by decide : Text.isWord '[' = false)]
  have hkept : catchAll.replaceAll (fun _ => ['*']) ('[' :: (name.text ++ [']'])) =
      '[' :: (name.text ++ [']']) := by
    refine replaceAll_of_failsAt _ fun u hu hne => ?_
    rcases suffix_cons_iff.mp hu with rfl | hu
    · exact name.failsAt_catchAll
    · obtain ⟨x, others, rfl⟩ := exists_cons_of_ne_nil hne
      have hx : x ∈ name.text ++ [']'] := hu.mem mem_cons_self
      exact begins_catchAll.failsAt (beq_eq_false_iff_ne.mpr fun heq => hinside (heq ▸ hx))
  obtain ⟨m, hparameter, hgroups⟩ :=
    name.reads_bracketed.replaceAll_eq (fun m => ':' :: m.group 1) (cons_ne_nil _ _)
  rw [segmentRoute, hkept, hparameter, Match.group, hgroups 1]
  rfl

end ParameterName

/-- A directory's text gives its segment. -/
theorem Directory.segmentRoute_text {d : Directory} (h : d.segment? = some segment) :
    segmentRoute d.text = segment := by
  cases d with
  | fixed name hfixed =>
    obtain rfl := Option.some.inj h
    exact segmentRoute_of_not_mem hfixed.brackets.1
  | parameter name =>
    obtain rfl := Option.some.inj h
    exact name.segmentRoute_brackets
  | remainder name =>
    obtain rfl := Option.some.inj h
    exact segmentRoute_of_catchAll name.reads_remainder (cons_ne_nil _ _)
  | optionalRemainder name =>
    obtain rfl := Option.some.inj h
    exact segmentRoute_of_catchAll name.reads_optionalRemainder (cons_ne_nil _ _)
  | group | slot => cases h

/-- The path of a special file below its directories. -/
def specialPath (directories : List Directory) (file : SpecialFile) (suffix : String) : List Char :=
  Text.join ['/'] (directories.map Directory.text ++ [file.stem.toList ++ suffix.toList])

/-- A special stem has no separators. -/
theorem SpecialFile.stem_separators (file : SpecialFile) :
    file.stem.toList ≠ [] ∧ '/' ∉ file.stem.toList ∧ '\\' ∉ file.stem.toList := by
  cases file <;> decide

/-- A special file stands for its directory. -/
theorem SpecialFile.isIndexName_stem (file : SpecialFile) :
    isIndexName .nextjsApp file.stem.toList = true := by
  cases file <;> decide

/-- A special file's segments are its directories and stem. -/
theorem pathSegments_specialPath (directories : List Directory) (file : SpecialFile)
    {suffix : String} (h : suffix ∈ Tree.sourceSuffixes) :
    pathSegments (specialPath directories file suffix) =
      directories.map Directory.text ++ [file.stem.toList] := by
  have hparts : ∀ part ∈ directories.map Directory.text ++ [file.stem.toList],
      part ≠ [] ∧ '/' ∉ part ∧ '\\' ∉ part := by
    intro part hpart
    rcases mem_append.mp hpart with hpart | hpart
    · obtain ⟨d, -, rfl⟩ := mem_map.mp hpart
      exact d.text_separators
    · obtain rfl := mem_singleton.mp hpart
      exact file.stem_separators
  have hback : '\\' ∉ Text.join ['/'] (directories.map Directory.text ++ [file.stem.toList]) := by
    intro hmem
    rcases Source.mem_join hmem with hmem | ⟨part, hpart, hmem⟩
    · simp at hmem
    · exact (hparts part hpart).2.2 hmem
  have hsame : (Text.join ['/'] (directories.map Directory.text ++ [file.stem.toList])).map
      (fun c => if c = '\\' then '/' else c) =
        Text.join ['/'] (directories.map Directory.text ++ [file.stem.toList]) := by
    refine (map_congr_left fun c hc => ?_).trans (map_id _)
    exact if_neg (ne_of_mem_of_not_mem hc hback)
  rw [specialPath, ← Text.join_concat_append, pathSegments_append_suffix _ suffix h, hsame,
    Text.splitOn_join (by simp) fun part hpart => (hparts part hpart).2.1]
  exact filter_eq_self.mpr fun part hpart => by simpa using (hparts part hpart).1

/-- Directories' texts give the segments. -/
theorem map_segmentRoute_directories (directories : List Directory) :
    ((directories.map Directory.text).filter (!isGrouping ·)).map segmentRoute =
      directories.filterMap Directory.segment? := by
  induction directories with
  | nil => rfl
  | cons d directories ih =>
    rw [map_cons, filter_cons, d.isGrouping_text, filterMap_cons, ← ih]
    cases hsegment : d.segment? with
    | none => rfl
    | some segment => exact congrArg (· :: _) (Directory.segmentRoute_text hsegment)

/-- Where routes are directories, the route of a special file is made of the segments that the
directories on the way add. The route of any path has the shape of a route. -/
theorem file_routes_spelled :
    (∀ (directories : List Directory) (file : SpecialFile) (suffix : String),
      suffix ∈ Tree.sourceSuffixes → ofFilePath (specialPath directories file suffix) .nextjsApp =
          '/' :: Text.join ['/'] (directories.filterMap Directory.segment?)) ∧
    ∀ (path : List Char) (router : Router), IsRoute (ofFilePath path router) := by
  refine ⟨fun directories file suffix hsuffix => ?_, isRoute_ofFilePath⟩
  have hindex : withoutIndexName .nextjsApp
      (directories.map Directory.text ++ [file.stem.toList]) = directories.map Directory.text := by
    simp [withoutIndexName, file.isIndexName_stem]
  rw [ofFilePath, pathSegments_specialPath directories file hsuffix, countedSegments, hindex,
    ← map_segmentRoute_directories]
  rfl

/-- Directories of every kind, one named like a special file. -/
def shopDirectories : List Directory :=
  [.group "shop".toList (by decide), .fixed "page".toList (by constructor <;> decide),
   .slot "side".toList (by decide), .parameter ⟨"id".toList, by decide, all_eq_true.mp rfl⟩,
   .remainder ⟨"rest".toList, by decide, all_eq_true.mp rfl⟩,
   .fixed "b.js".toList (by constructor <;> decide),
   .optionalRemainder ⟨"more".toList, by decide, all_eq_true.mp rfl⟩]

/-- The route below directories of every kind. -/
theorem file_routes_spelled_shopDirectories : ".jsx" ∈ Tree.sourceSuffixes ∧
      ofFilePath "(shop)/page/@side/[id]/[...rest]/b.js/[[...more]]/not-found.jsx".toList
        .nextjsApp = "/page/:id/*/b.js/*".toList :=
  ⟨by decide, file_routes_spelled.1 shopDirectories .notFound ".jsx" (by decide)⟩

end Route

end SiteAtlas
