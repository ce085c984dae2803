import Mathlib.Data.List.TakeWhile
import SiteAtlas.Graph.Link
import SiteAtlas.Project.Middleware
import SiteAtlas.Proofs.FileTexts
import SiteAtlas.Proofs.GapReading

/-!
# Matchers that a middleware file declares

A middleware file with only a list of quoted matchers gives these, with two exceptions: the list is
cut off at the first closing bracket, and a matcher but the last that ends like the beginning of a
declaration has the text after it taken for a matcher.
-/

namespace SiteAtlas

open List

variable {matchers : List (List Char)} {m : List Char}

namespace Pattern

variable {p : Pattern} {text rest : List Char}

/-- The matches in a text from a position on. -/
def hitsFrom (p : Pattern) (before : List Char) (offset : Nat) (cs : List Char) : List Match :=
  (p.piecesFrom 0 before offset cs).filterMap Piece.hit?

/-- The leftmost match is the first one. -/
theorem find?_eq_head?_hitsFrom (p : Pattern) (cs : List Char) :
    p.find? cs = (p.hitsFrom [] 0 cs).head? :=
  find?_eq_head? p cs

/-- A text in which a pattern matches nowhere has no matches. -/
theorem hitsFrom_of_misses (h : ∀ u, u <:+ text → u ≠ [] → p.Misses (u ++ rest))
    (before : List Char) (offset : Nat) : p.hitsFrom before offset (text ++ rest) =
      p.hitsFrom (text.reverse ++ before) (offset + text.length) rest := by
  have hplain : (text.map Piece.plain).filterMap Piece.hit? = [] := by simp [Piece.hit?]
  rw [hitsFrom, piecesFrom_of_misses h, filterMap_append, hplain, nil_append, hitsFrom]

/-- A text in which a pattern is nowhere read has no matches. -/
theorem hitsFrom_of_failsAt (h : ∀ u, u <:+ text → u ≠ [] → p.FailsAt (u ++ rest))
    (before : List Char) (offset : Nat) : p.hitsFrom before offset (text ++ rest) =
      p.hitsFrom (text.reverse ++ before) (offset + text.length) rest :=
  hitsFrom_of_misses (fun u hu hne => (h u hu hne).matchAt_eq_none) before offset

/-- A pattern has no match where it can begin nowhere. -/
theorem Begins.hitsFrom {accepts : Char → Bool} (h : p.Begins accepts)
    (htext : ∀ c ∈ text, accepts c = false) (rest before : List Char) (offset : Nat) :
    p.hitsFrom before offset (text ++ rest) =
      p.hitsFrom (text.reverse ++ before) (offset + text.length) rest := by
  refine hitsFrom_of_failsAt (fun u hu hne => h.failsAt ?_) before offset
  obtain ⟨x, u, rfl⟩ := exists_cons_of_ne_nil hne
  exact htext x (hu.mem mem_cons_self)

/-- A first reading is the first match, and others follow. -/
theorem Reads.exists_hitsFrom {captured : List (Nat × List Char)} (h : p.Reads text rest captured)
    (hne : text ≠ []) (before : List Char) (offset : Nat) :
    ∃ m, (∀ index, m.group? index = captured.lookup index) ∧
      p.hitsFrom before offset (text ++ rest) =
        m :: p.hitsFrom (text.reverse ++ before) (offset + text.length) rest := by
  obtain ⟨m, hmatch, htext, hgroups⟩ := h.exists_matchAt before offset
  refine ⟨m, hgroups, ?_⟩
  rw [hitsFrom, piecesFrom_hit hne hmatch htext]
  rfl

end Pattern

namespace Route

open Pattern

/-- Whether a character is a quote. -/
def isQuote (c : Char) : Bool :=
  "'\"".toList.contains c

/-- A text that can stand between quotes. -/
def Quotable (cs : List Char) : Prop :=
  ∀ c ∈ cs, isQuote c = false

/-- What stands between two matchers can stand between quotes. -/
theorem quotable_separator : Quotable ", ".toList := by
  simp [Quotable, isQuote]

/-- The text of matchers in quotes, without brackets. -/
def listText : List (List Char) → List Char
  | [] => []
  | [m] => '\'' :: (m ++ ['\''])
  | m :: next :: rest => '\'' :: (m ++ ['\'']) ++ (", ".toList ++ listText (next :: rest))

/-- A list of matchers begins with a quote. -/
theorem exists_listText (hne : matchers ≠ []) : ∃ more, listText matchers = '\'' :: more := by
  obtain ⟨m, rest, rfl⟩ := exists_cons_of_ne_nil hne
  cases rest <;> exact ⟨_, rfl⟩

/-- A middleware file that declares a list of matchers. -/
def configText (matchers : List (List Char)) : List Char :=
  "export const config = \x7b ".toList ++ ("matcher: [".toList ++ (listText matchers ++
    "] \x7d;".toList))

/-- Whether a matcher ends like the beginning of a declaration. -/
def endsInKey (m : List Char) : Bool :=
  "matcher:".toList.isSuffixOf (Text.trimEndWhile Text.isBlank m)

/-- The matchers found in a file that declares a list. -/
def foundMatchers (matchers : List (List Char)) : List (List Char) :=
  matchers.takeWhile (!·.contains ']') ++
    if matchers.dropLast.any endsInKey then [", ".toList] else []

/-- A matcher ends like a declaration begins, blanks apart. -/
theorem endsInKey_iff : endsInKey m = true ↔
      ∃ gap, (∀ c ∈ gap, Text.isBlank c = true) ∧ "matcher:".toList ++ gap <:+ m := by
  rw [endsInKey, isSuffixOf_iff_suffix, Text.trimEndWhile]
  constructor
  · rintro ⟨front, hfront⟩
    refine ⟨(m.reverse.takeWhile Text.isBlank).reverse, fun c hc => ?_, front, ?_⟩
    · exact all_eq_true.mp all_takeWhile c (mem_reverse.mp hc)
    · rw [← append_assoc, hfront, ← reverse_append, takeWhile_append_dropWhile,
        reverse_reverse]
  · rintro ⟨gap, hgap, front, rfl⟩
    have hreverse : ∀ c ∈ gap.reverse, Text.isBlank c = true :=
      fun c hc => hgap c (mem_reverse.mp hc)
    have hkey : ("matcher:".toList.reverse ++ front.reverse).dropWhile Text.isBlank =
        "matcher:".toList.reverse ++ front.reverse := dropWhile_cons_of_neg (by decide)
    rw [← append_assoc, reverse_append, dropWhile_append_of_pos hreverse,
      reverse_append, hkey, reverse_append, reverse_reverse, reverse_reverse]
    exact suffix_append front _

/-- The text up to a quote ends at the first quote. -/
theorem eq_of_quote_eq {a b x y : List Char} {q r : Char} (ha : Quotable a) (hb : Quotable b)
    (hq : isQuote q = true) (hr : isQuote r = true) (h : a ++ q :: x = b ++ r :: y) :
    a = b ∧ q :: x = r :: y := by
  have hcut {a x : List Char} {q : Char} (ha : Quotable a) (hq : isQuote q = true) :
      (a ++ q :: x).takeWhile (!isQuote ·) = a := by
    rw [takeWhile_append_of_pos (by simpa [Quotable] using ha)]
    simp [hq]
  have hsame : a = b := (hcut ha hq).symm.trans ((congrArg _ h).trans (hcut hb hr))
  subst hsame
  exact ⟨rfl, append_cancel_left h⟩

/-- A quoted matcher is read as its text. -/
theorem reads_quotedMatcher (hne : m ≠ []) (hm : Quotable m) (rest : List Char) :
    quotedMatcher.Reads ('\'' :: (m ++ ['\''])) rest [(1, m)] := by
  have hquote (rest : List Char) : (oneOf "'\"").Reads ['\''] rest [] := reads_one rfl rest
  have hbody : (many1 (noneOf "'\"")).Reads m (['\''] ++ rest) [] :=
    reads_many1 hne (fun c hc => congrArg (!·) (hm c hc)) rfl
  exact ((hquote _).seq (hbody.capture 1)).seq (hquote rest)

/-- Without a second quote there is no quoted text. -/
theorem failsAt_quotedMatcher {q : Char} {cs : List Char} (h : Quotable cs) :
    quotedMatcher.FailsAt (q :: cs) := by
  apply failsAt_of_spells
  rintro _ more ⟨_, _, rfl, ⟨_, m, rfl, ⟨first, -, rfl⟩, hm⟩, ⟨last, hlast, rfl⟩⟩ heq
  have hmem : last ∈ cs := by
    have htail := (List.cons.inj heq).2
    rw [htail]
    simp
  exact Bool.noConfusion ((h last hmem).symm.trans hlast)

/-- A quoted matcher begins with a quote. -/
theorem begins_quotedMatcher : quotedMatcher.Begins isQuote := fun _ hx => hx

/-- A matcher that is cut off has no second quote. -/
theorem hitsFrom_cut (h : Quotable m) (before : List Char) (offset : Nat) :
    quotedMatcher.hitsFrom before offset ('\'' :: m) = [] := by
  have hfirst : ∀ u, u <:+ ['\''] → u ≠ [] → quotedMatcher.FailsAt (u ++ m) := by
    intro u hu hne
    rcases suffix_cons_iff.mp hu with rfl | hu
    · exact failsAt_quotedMatcher h
    · exact absurd (suffix_nil.mp hu) hne
  have hrest := begins_quotedMatcher.hitsFrom h [] (['\''] ++ before) (offset + 1)
  rw [append_nil] at hrest
  exact (hitsFrom_of_failsAt hfirst before offset).trans hrest

/-- A matcher up to its first closing bracket, if any. -/
theorem takeWhile_quoted (h : ']' ∈ m) (tail : List Char) :
    ('\'' :: (m ++ tail)).takeWhile (· != ']') = '\'' :: m.takeWhile (· != ']') := by
  have hproper : (m.takeWhile (· != ']')).length ≠ m.length := by
    intro hlength
    have hall := (List.takeWhile_prefix _).eq_of_length hlength
    rw [← hall] at h
    exact absurd (mem_takeWhile_imp h) (by decide)
  rw [takeWhile_cons_of_pos (by decide), takeWhile_append, if_neg hproper]

/-- A matcher with a closing bracket is not read up to there. -/
theorem hitsFrom_takeWhile_quoted (hm : Quotable m) (hbracket : ']' ∈ m) (tail before : List Char)
    (offset : Nat) :
    quotedMatcher.hitsFrom before offset (('\'' :: (m ++ tail)).takeWhile (· != ']')) = [] := by
  rw [takeWhile_quoted hbracket]
  exact hitsFrom_cut (fun c hc => hm c ((List.takeWhile_prefix _).mem hc)) before offset

/-- In quotes, a matcher has no more closing brackets. -/
theorem ne_bracket_of_mem_quoted (hbracket : ']' ∉ m) :
    ∀ c ∈ '\'' :: (m ++ ['\'']), (c != ']') = true := by
  simp only [mem_cons, mem_append, not_mem_nil, or_false, bne_iff_ne]
  rintro c (rfl | hc | rfl)
  · decide
  · exact fun heq => hbracket (heq ▸ hc)
  · decide

/-- A list is read up to the first closing bracket. -/
theorem hitsFrom_listText (h : ∀ m ∈ matchers, m ≠ [] ∧ Quotable m) (before : List Char)
    (offset : Nat) :
    (quotedMatcher.hitsFrom before offset ((listText matchers).takeWhile (· != ']'))).map
      (·.group 1) = matchers.takeWhile (!·.contains ']') := by
  fun_induction listText matchers generalizing before offset with
  | case1 => rfl
  | case2 m =>
    obtain ⟨hne, hm⟩ := h m mem_cons_self
    by_cases hbracket : ']' ∈ m
    · rw [hitsFrom_takeWhile_quoted hm hbracket]
      simp [hbracket]
    · obtain ⟨found, hgroups, hhits⟩ :=
        (reads_quotedMatcher hne hm []).exists_hitsFrom (by simp) before offset
      rw [append_nil] at hhits
      rw [takeWhile_eq_self_iff.mpr (ne_bracket_of_mem_quoted hbracket), hhits]
      simp [hbracket, Match.group, hgroups, hitsFrom, piecesFrom]
  | case3 m next rest ih =>
    obtain ⟨hne, hm⟩ := h m mem_cons_self
    by_cases hbracket : ']' ∈ m
    · rw [cons_append, append_assoc, hitsFrom_takeWhile_quoted hm hbracket]
      simp [hbracket]
    · obtain ⟨found, hgroups, hhits⟩ := (reads_quotedMatcher hne hm (", ".toList ++
        (listText (next :: rest)).takeWhile (· != ']'))).exists_hitsFrom (by simp) before offset
      rw [takeWhile_append_of_pos (ne_bracket_of_mem_quoted hbracket),
        takeWhile_append_of_pos (by simp), hhits,
        begins_quotedMatcher.hitsFrom quotable_separator, map_cons,
        ih fun other hother => h other (mem_cons_of_mem m hother)]
      simp [hbracket, Match.group, hgroups]

/-- Blanks can stand in quotes. -/
theorem quotable_of_isBlank {gap : List Char} (h : ∀ c ∈ gap, Text.isBlank c = true) :
    Quotable gap := by
  intro c hc
  have hquotes : ∀ q ∈ "'\"".toList, Text.isBlank q = false := forall_mem_cons.mpr
    ⟨by decide, forall_mem_singleton.mpr (by decide)⟩
  by_contra hquote
  rw [Bool.not_eq_false, isQuote, contains_iff_mem] at hquote
  exact Bool.noConfusion ((h c hc).symm.trans (hquotes c hquote))

/-- A single matcher begins with its key. -/
theorem begins_matcherString : matcherString.Begins (· == 'm') := fun _ hx => hx

/-- A single matcher is read only after its key and blanks. -/
theorem failsAt_matcherString {u tail : List Char} (hu : Quotable u)
    (h : ∀ gap, (∀ c ∈ gap, Text.isBlank c = true) → u = "matcher:".toList ++ gap →
      quotedMatcher.FailsAt ('\'' :: tail)) : matcherString.FailsAt (u ++ '\'' :: tail) := by
  refine failsAt_append fun spelled more hspells heq => ?_
  obtain ⟨key, gap, rfl, hkey, hgap⟩ := hspells
  obtain rfl := spells_text.mp hkey
  obtain ⟨-, hgap⟩ := spells_loop_one.mp hgap
  cases more with
  | nil => exact begins_quotedMatcher.failsAt rfl
  | cons q more =>
    cases hq : isQuote q with
    | false => exact begins_quotedMatcher.failsAt hq
    | true =>
      have hkey : Quotable "matcher:".toList := by simp [Quotable, isQuote]
      have hspelled : Quotable ("matcher:".toList ++ gap) :=
        forall_mem_append.mpr ⟨hkey, quotable_of_isBlank hgap⟩
      obtain ⟨hsame, hrest⟩ := eq_of_quote_eq hu hspelled rfl hq heq
      rw [← hrest]
      exact h gap hgap hsame

/-- The key of a single matcher is read with its text. -/
theorem reads_matcherString {gap : List Char} (hgap : ∀ c ∈ gap, Text.isBlank c = true)
    (hne : m ≠ []) (hm : Quotable m) (rest : List Char) :
    matcherString.Reads ("matcher:".toList ++ gap ++ '\'' :: (m ++ ['\''])) rest [(1, m)] := by
  have hblanks : blanks.Reads gap ('\'' :: (m ++ ['\'']) ++ rest) [] := reads_many hgap (by rfl)
  exact ((reads_text "matcher:" _).seq hblanks).seq (reads_quotedMatcher hne hm rest)

/-- A matcher is passed over if no single one begins at its end. -/
theorem hitsFrom_matcher (hm : Quotable m) (tail : List Char)
    (h : endsInKey m = true → quotedMatcher.FailsAt ('\'' :: tail)) (before : List Char)
    (offset : Nat) : ∃ before' offset', matcherString.hitsFrom before offset
      ('\'' :: (m ++ ['\'']) ++ tail) = matcherString.hitsFrom before' offset' tail := by
  have htext : '\'' :: (m ++ ['\'']) ++ tail = ['\''] ++ (m ++ (['\''] ++ tail)) := by simp
  rw [htext, begins_matcherString.hitsFrom (by simp), hitsFrom_of_failsAt,
    begins_matcherString.hitsFrom (by simp)]
  · exact ⟨_, _, rfl⟩
  · intro u hu hne
    refine failsAt_matcherString (fun c hc => hm c (hu.mem hc)) fun gap hgap hsame => ?_
    exact h (endsInKey_iff.mpr ⟨gap, hgap, hsame ▸ hu⟩)

/-- Before a key at the end of a matcher, no single one is read. -/
theorem failsAt_matcherString_key {u gap : List Char} (hne : u ≠ [])
    (hm : Quotable (u ++ ("matcher:".toList ++ gap))) (tail : List Char) :
    matcherString.FailsAt (u ++ ("matcher:".toList ++ gap) ++ '\'' :: tail) := by
  refine failsAt_matcherString hm fun other hother hsame => ?_
  obtain ⟨x, u, rfl⟩ := exists_cons_of_ne_nil hne
  have htail : u ++ ("matcher:".toList ++ gap) = "atcher:".toList ++ other := by
    simpa using congrArg List.tail hsame
  have hletter : 'm' ∈ "atcher:".toList ++ other := by
    rw [← htail]
    simp
  rcases mem_append.mp hletter with hmem | hmem
  · simp at hmem
  · exact absurd (hother 'm' hmem) (by decide)

/-- After a matcher that ends in a key, more text is found. -/
theorem hitsFrom_key (hm : Quotable m) (h : endsInKey m = true) (more before : List Char)
    (offset : Nat) : (matcherString.hitsFrom before offset ('\'' :: (m ++ ['\'']) ++
      (", ".toList ++ '\'' :: more))).head?.map (·.group 1) = some ", ".toList := by
  obtain ⟨gap, hgap, front, rfl⟩ := endsInKey_iff.mp h
  obtain ⟨found, hgroups, hhits⟩ := (reads_matcherString hgap (by simp) quotable_separator
    more).exists_hitsFrom (by simp) (front.reverse ++ (['\''].reverse ++ before))
      (offset + ['\''].length + front.length)
  have htext : '\'' :: (front ++ ("matcher:".toList ++ gap) ++ ['\'']) ++
      (", ".toList ++ '\'' :: more) = ['\''] ++ (front ++ ("matcher:".toList ++ gap ++
        '\'' :: (", ".toList ++ ['\'']) ++ more)) := by simp
  rw [htext, begins_matcherString.hitsFrom (by simp), hitsFrom_of_failsAt, hhits]
  · simp [Match.group, hgroups]
  · intro u hu hne
    have hquotable : Quotable (u ++ ("matcher:".toList ++ gap)) := by
      refine forall_mem_append.mpr ⟨fun c hc => hm c ?_, fun c hc => hm c ?_⟩
      · exact mem_append_left _ (hu.mem hc)
      · exact mem_append_right _ hc
    simpa using failsAt_matcherString_key hne hquotable (", ".toList ++ ['\''] ++ more)

/-- In a list, a single matcher is found after one that ends in a key. -/
theorem hitsFrom_matcherString (h : ∀ m ∈ matchers, Quotable m) (before : List Char) (offset : Nat)
    :

    (matcherString.hitsFrom before offset (listText matchers ++ "] \x7d;".toList)).head?.map
      (·.group 1) = if matchers.dropLast.any endsInKey then some ", ".toList else none := by
  have hend (before : List Char) (offset : Nat) :
      matcherString.hitsFrom before offset "] \x7d;".toList = [] := by
    have hskip : matcherString.hitsFrom before offset ("] \x7d;".toList ++ []) = [] :=
      begins_matcherString.hitsFrom (by simp) [] before offset
    rwa [append_nil] at hskip
  fun_induction listText matchers generalizing before offset with
  | case1 =>
    rw [nil_append, hend]
    rfl
  | case2 m =>
    have hquotable : Quotable "] \x7d;".toList := by simp [Quotable, isQuote]
    obtain ⟨_, _, hhits⟩ := hitsFrom_matcher (h m mem_cons_self) "] \x7d;".toList
      (fun _ => failsAt_quotedMatcher hquotable) before offset
    rw [hhits, hend]
    rfl
  | case3 m next rest ih =>
    have hm := h m mem_cons_self
    have hmore := ih fun other hother => h other (mem_cons_of_mem m hother)
    rw [dropLast_cons_cons, any_cons, append_assoc, append_assoc]
    cases hkey : endsInKey m with
    | false =>
      obtain ⟨_, _, hhits⟩ := hitsFrom_matcher hm (", ".toList ++
        (listText (next :: rest) ++ "] \x7d;".toList)) (by simp [hkey]) before offset
      rw [hhits, begins_matcherString.hitsFrom (by simp), hmore, Bool.false_or]
    | true =>
      obtain ⟨more, hnext⟩ := exists_listText (cons_ne_nil next rest)
      have htext : listText (next :: rest) ++ "] \x7d;".toList =
          '\'' :: (more ++ "] \x7d;".toList) := by rw [hnext, cons_append]
      rw [htext, hitsFrom_key hm hkey]
      rfl

/-- The text of a list ends at the first closing bracket. -/
theorem reads_matcherArray {listed : List Char} (hne : listed ≠ []) (h : ∀ c ∈ listed, c ≠ ']')
    (rest : List Char) :
    matcherArray.Reads ("matcher: [".toList ++ listed ++ [']']) rest [(1, listed)] := by
  have hblank (rest : List Char) : blanks.Reads [' '] ('[' :: rest) [] :=
    reads_many (forall_mem_singleton.mpr rfl) rfl
  have hkey (rest : List Char) :
      (text "matcher:" ++ blanks ++ char '[').Reads "matcher: [".toList rest [] :=
    ((reads_text "matcher:" _).seq (hblank rest)).seq (reads_char '[' rest)
  have hlisted : (many1 (noneOf "]")).Reads listed ([']'] ++ rest) [] :=
    reads_many1 hne (fun c hc => by simp [h c hc]) rfl
  exact ((hkey _).seq (hlisted.capture 1)).seq (reads_char ']' rest)

/-- A text is cut at its first bracket. -/
theorem exists_takeWhile_bracket (cs tail : List Char) :
    ∃ rest, cs ++ ']' :: tail = cs.takeWhile (· != ']') ++ ']' :: rest := by
  induction cs with
  | nil => exact ⟨tail, rfl⟩
  | cons c cs ih =>
    obtain ⟨rest, hrest⟩ := ih
    by_cases hc : c = ']'
    · subst hc
      exact ⟨cs ++ ']' :: tail, rfl⟩
    · refine ⟨rest, ?_⟩
      rw [takeWhile_cons_of_pos (by simpa using hc), cons_append, hrest, cons_append]

/-- A list is found up to its first closing bracket. -/
theorem find_matcherArray (hne : matchers ≠ []) :
    ∃ found, matcherArray.find? (configText matchers) = some found ∧
      found.group 1 = (listText matchers).takeWhile (· != ']') := by
  have hbegins : matcherArray.Begins (· == 'm') := fun _ hx => hx
  have hlisted : (listText matchers).takeWhile (· != ']') ≠ [] := by
    obtain ⟨more, hmore⟩ := exists_listText hne
    rw [hmore]
    exact cons_ne_nil _ _
  obtain ⟨rest, hrest⟩ := exists_takeWhile_bracket (listText matchers) " \x7d;".toList
  have htext : "matcher: [".toList ++ (listText matchers ++ "] \x7d;".toList) =
      "matcher: [".toList ++ (listText matchers).takeWhile (· != ']') ++ [']'] ++ rest := by
    have hclose : "] \x7d;".toList = ']' :: " \x7d;".toList := by simp
    rw [hclose, hrest]
    simp
  have hbracket : ∀ c ∈ (listText matchers).takeWhile (· != ']'), c ≠ ']' := fun c hc => by
    simpa using mem_takeWhile_imp hc
  have hread := reads_matcherArray hlisted hbracket rest
  have hbefore : ∀ c ∈ "export const config = \x7b ".toList, (c == 'm') = false := by simp
  obtain ⟨found, hgroups, hhits⟩ := hread.exists_hitsFrom (by simp)
    ("export const config = \x7b ".toList.reverse ++ [])
    (0 + "export const config = \x7b ".toList.length)
  refine ⟨found, ?_, by simp [Match.group, hgroups]⟩
  unfold configText
  rw [find?_eq_head?_hitsFrom, hbegins.hitsFrom hbefore, htext, hhits, head?_cons]

/-- A single matcher is found after the first that ends in a key. -/
theorem find_matcherString (hne : matchers ≠ []) (h : ∀ m ∈ matchers, Quotable m) :
    (matcherString.find? (configText matchers)).map (·.group 1) =
      if matchers.dropLast.any endsInKey then some ", ".toList else none := by
  obtain ⟨more, hmore⟩ := exists_listText hne
  have hopening : ∀ u, u <:+ "matcher: [".toList → u ≠ [] →
      matcherString.FailsAt (u ++ (listText matchers ++ "] \x7d;".toList)) := by
    intro u hu hne
    have hquotable : Quotable "matcher: [".toList := by simp [Quotable, isQuote]
    rw [hmore, cons_append]
    refine failsAt_matcherString (fun c hc => hquotable c (hu.mem hc)) fun gap hgap hsame => ?_
    -- A bracket stands after the blanks, not a quote.
    have hbracket : '[' ∈ "matcher:".toList ++ gap := by
      have hlast := getLast_mem hne
      rw [hu.getLast hne] at hlast
      rw [← hsame]
      simpa using hlast
    rcases mem_append.mp hbracket with hmem | hmem
    · simp at hmem
    · exact absurd (hgap '[' hmem) (by decide)
  have hbefore : ∀ c ∈ "export const config = \x7b ".toList, (c == 'm') = false := by simp
  unfold configText
  rw [find?_eq_head?_hitsFrom, begins_matcherString.hitsFrom hbefore, hitsFrom_of_failsAt hopening,
    hitsFrom_matcherString h]

/-- The matchers found in a file that declares a list. -/
theorem declaredMatchers_configText (hne : matchers ≠ []) (h : ∀ m ∈ matchers, m ≠ [] ∧ Quotable m)
    :

    declaredMatchers (configText matchers) = (foundMatchers matchers).map String.ofList := by
  obtain ⟨found, hfind, hgroup⟩ := find_matcherArray hne
  have hlisted : (quotedMatcher.findAll (found.group 1)).map (·.group 1) =
      matchers.takeWhile (!·.contains ']') := by
    rw [hgroup]
    exact hitsFrom_listText h [] 0
  have hsingle := find_matcherString hne fun m hm => (h m hm).2
  have hstrings (ms : List Match) : ms.map (·.groupString 1) =
      (ms.map (·.group 1)).map String.ofList := by
    rw [map_map]
    rfl
  have hstring (m : Option Match) : m.map (·.groupString 1) =
      (m.map (·.group 1)).map String.ofList := by
    rw [Option.map_map]
    rfl
  rw [declaredMatchers, hfind]
  dsimp only
  rw [hstrings, hlisted, hstring, hsingle, foundMatchers, map_append]
  cases matchers.dropLast.any endsInKey <;> rfl

/-- All are found if none has a bracket and only the last a key. -/
theorem foundMatchers_eq_self_iff : foundMatchers matchers = matchers ↔
      (∀ m ∈ matchers, ']' ∉ m) ∧ ∀ m ∈ matchers.dropLast, endsInKey m = false := by
  have hkept : ∀ m ∈ matchers.takeWhile (!·.contains ']'), ']' ∉ m := fun m hm => by
    simpa using mem_takeWhile_imp hm
  have hkeys : matchers.dropLast.any endsInKey = false ↔
      ∀ m ∈ matchers.dropLast, endsInKey m = false := by simp
  rw [foundMatchers, ← hkeys]
  constructor
  · intro heq
    -- The separator has no bracket, so no matcher can have one.
    have hall : ∀ m ∈ matchers, ']' ∉ m := by
      intro m hm
      rw [← heq] at hm
      rcases mem_append.mp hm with hm | hm
      · exact hkept m hm
      · split at hm
        · rw [mem_singleton.mp hm]
          simp
        · simp at hm
    rw [takeWhile_eq_self_iff.mpr (by simpa using hall)] at heq
    refine ⟨hall, ?_⟩
    by_contra hkey
    rw [Bool.not_eq_false] at hkey
    simp [hkey] at heq
  · rintro ⟨hall, hkey⟩
    rw [takeWhile_eq_self_iff.mpr (by simpa using hall), hkey]
    simp

/-- None is found if the first has a bracket and only the last a key. -/
theorem foundMatchers_eq_nil_iff : foundMatchers (m :: matchers) = [] ↔
      ']' ∈ m ∧ ∀ other ∈ (m :: matchers).dropLast, endsInKey other = false := by
  rw [foundMatchers, append_eq_nil_iff, takeWhile_cons]
  refine and_congr (by simp) ?_
  cases hkey : (m :: matchers).dropLast.any endsInKey with
  | false => simpa using hkey
  | true => simpa using hkey

/-- A declaration has no carriage returns if matchers have none. -/
theorem not_mem_configText (h : ∀ m ∈ matchers, '\r' ∉ m) : '\r' ∉ configText matchers := by
  have hlist : '\r' ∉ listText matchers := by
    fun_induction listText matchers with
    | case1 => simp
    | case2 m => simpa using h m mem_cons_self
    | case3 m next rest ih =>
      have hm := h m mem_cons_self
      have hmore := ih fun other hother => h other (mem_cons_of_mem m hother)
      simp [hm, hmore]
  unfold configText
  simp [hlist]

end Route

open Route

/-- The only middleware file is a declaration of matchers. -/
def Project.Declares (p : Project) (name : String) (matchers : List String) : Prop :=
  ∀ file ∈ Project.middlewareFiles, p.tree.read? (p.root / file) = if file = name then
      some (Text.toBytes (String.ofList (configText (matchers.map String.toList))))
    else none

/-- A text that can stand as a matcher in a declaration. -/
def Matchable (m : String) : Prop :=
  m ≠ "" ∧ ∀ c ∈ m.toList, c ≠ '\'' ∧ c ≠ '"' ∧ c ≠ '\r'

/-- A declaring project has middleware. -/
theorem Project.Declares.exists_middleware {p : Project} {name : String} {matchers : List String}
    (h : p.Declares name matchers) (hname : name ∈ Project.middlewareFiles) (hne : matchers ≠ [])
    (hmatchers : ∀ m ∈ matchers, Matchable m) : ∃ found, p.middleware = some found ∧
      found.matcherPatterns = (foundMatchers (matchers.map String.toList)).map String.ofList := by
  have hreturn : '\r' ∉ configText (matchers.map String.toList) := by
    refine not_mem_configText ?_
    simp only [forall_mem_map]
    exact fun m hm hr => ((hmatchers m hm).2 '\r' hr).2.2 rfl
  have hfound : declaredMatchers (configText (matchers.map String.toList)) =
      (foundMatchers (matchers.map String.toList)).map String.ofList := by
    refine declaredMatchers_configText (by simpa using hne) ?_
    simp only [forall_mem_map]
    intro m hm
    obtain ⟨hm, hchars⟩ := hmatchers m hm
    exact ⟨by simpa using hm, fun c hc => by simp [isQuote, hchars c hc]⟩
  have htext : p.tree.readText? (p.root / name) =
      some (configText (matchers.map String.toList)) := by
    rw [Tree.readText?, h name hname, if_pos rfl, Option.bind_some,
      Text.ofBytes?_toBytes (by rwa [String.toList_ofList]), String.toList_ofList]
  obtain ⟨front, back, hsplit, hfront⟩ := eq_append_cons_of_mem hname
  let found : Middleware :=
    { filePath := (p.root / name).toString, fileName := (p.root / name).name
      matcherPatterns := declaredMatchers (configText (matchers.map String.toList)) }
  refine ⟨found, findSome?_eq_some_iff.mpr ⟨front, name, back, hsplit, ?_, ?_⟩, hfound⟩
  · dsimp only
    rw [htext, Option.map_some]
  · intro file hfile
    have hother : file ≠ name := fun heq => hfront (heq ▸ hfile)
    have hmem : file ∈ Project.middlewareFiles := hsplit ▸ mem_append_left _ hfile
    dsimp only
    rw [Tree.readText?, h file hmem, if_neg hother]
    rfl

/-- **The matchers of a middleware file.**  If the only middleware file of a project is a list of
matchers, they are found up to the first one with a closing bracket, and after them the text between
two matchers if one but the last ends in a key. So all are found unless there is such a bracket or
key, and none if the first one has the bracket and there is no key. -/
theorem middleware_finds_matchers (p : Project) (name : String)
    (hname : name ∈ Project.middlewareFiles) (first : String) (more : List String)
    (hmatchers : ∀ m ∈ first :: more, Matchable m) (h : p.Declares name (first :: more)) :
    ∃ found, p.middleware = some found ∧ found.matcherPatterns =
        (foundMatchers ((first :: more).map String.toList)).map String.ofList ∧
      (found.matcherPatterns = first :: more ↔ (∀ m ∈ first :: more, ']' ∉ m.toList) ∧
          ∀ m ∈ (first :: more).dropLast, endsInKey m.toList = false) ∧
      (found.matcherPatterns = [] ↔
        ']' ∈ first.toList ∧ ∀ m ∈ (first :: more).dropLast, endsInKey m.toList = false) := by
  obtain ⟨found, hfound, hpatterns⟩ := h.exists_middleware hname (List.cons_ne_nil _ _) hmatchers
  have hstrings : first :: more = ((first :: more).map String.toList).map String.ofList := by simp
  have hinjective : Function.Injective String.ofList := fun a b hab => by
    simpa using congrArg String.toList hab
  have hdropLast : ((first :: more).map String.toList).dropLast =
      (first :: more).dropLast.map String.toList := List.map_dropLast.symm
  refine ⟨found, hfound, hpatterns, ?_, ?_⟩
  · rw [hpatterns]
    nth_rewrite 2 [hstrings]
    rw [(List.map_injective_iff.mpr hinjective).eq_iff, foundMatchers_eq_self_iff, hdropLast]
    simp only [List.forall_mem_map]
  · rw [hpatterns, List.map_eq_nil_iff, List.map_cons, foundMatchers_eq_nil_iff, ← List.map_cons,
      hdropLast]
    simp only [List.forall_mem_map]

/-- A project with middleware for two parts of the site. -/
def guardedProject : Project where
  tree.files := [(["src", "middleware.ts"], Text.toBytes (String.ofList (configText
    ["/admin/:path*".toList, "/((?!api|_next).*)".toList])))]
  tree.directories := []
  root := .ofString "/"
  ignored := []

/-- Both matchers of the project are found. -/
theorem middleware_finds_matchers_guardedProject :
    guardedProject.Declares "src/middleware.ts" ["/admin/:path*", "/((?!api|_next).*)"] ∧
    ∃ found, guardedProject.middleware = some found ∧
      found.matcherPatterns = ["/admin/:path*", "/((?!api|_next).*)"] := by
  have hdeclares : guardedProject.Declares "src/middleware.ts"
      ["/admin/:path*", "/((?!api|_next).*)"] := by
    unfold Project.Declares
    decide +kernel
  have hmatchable : ∀ m ∈ ["/admin/:path*", "/((?!api|_next).*)"], Matchable m := by
    simp [Matchable]
  obtain ⟨found, hfound, -, hall, -⟩ := middleware_finds_matchers guardedProject
    "src/middleware.ts" (by decide) _ _ hmatchable hdeclares
  refine ⟨hdeclares, found, hfound, hall.mpr ⟨?_, ?_⟩⟩
  · simp
  · exact List.forall_mem_singleton.mpr (by decide +kernel)

/-- A project with middleware for routes of one part. -/
def shallowProject : Project where
  tree.files := [(["middleware.ts"],
    Text.toBytes "export const config = \x7b matcher: ['/([^/]+)'] \x7d;")]
  tree.directories := []
  root := .ofString "/"
  ignored := []

section

attribute [local instance] Host.usual

/-- A bracket ends the list, so the middleware is linked to every page. -/
theorem middleware_loses_bracket_matcher :
    ∃ found, shallowProject.middleware = some found ∧ found.matcherPatterns = [] ∧
      ∀ c : Catalog, linkMiddleware c found =
        .ok { found with usedIn := addAll found.usedIn (pageRoutes c) } := by
  have hdeclares : shallowProject.Declares "middleware.ts" ["/([^/]+)"] := by
    unfold Project.Declares
    decide +kernel
  obtain ⟨found, hfound, hpatterns⟩ := hdeclares.exists_middleware (by decide) (by simp)
    (by simp [Matchable])
  have hnone : found.matcherPatterns = [] := by
    rw [hpatterns]
    decide +kernel
  refine ⟨found, hfound, hnone, fun c => ?_⟩
  rw [linkMiddleware, hnone]
  rfl

end

end SiteAtlas
