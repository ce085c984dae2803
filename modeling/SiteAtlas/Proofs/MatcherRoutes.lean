import SiteAtlas.Proofs.ExpressionRuns
import SiteAtlas.Proofs.ExpressionTexts
import SiteAtlas.Proofs.MatcherRewriting

/-!
# The routes that a matcher covers

A matcher made of segments stands for routes segment by segment, while its written pattern speaks of
characters only. The two agree because what a later part of the pattern reads is empty or begins
with a slash, so a route is cut between segments.
-/

namespace SiteAtlas.Route

open List Expression

variable {route : List RouteSegment} {w : List Char}

variable (s : MatcherSegment) (pattern : List MatcherSegment) (taken : List RouteSegment)

/-- A segment of a route. -/
structure RouteSegment where
  text : List Char
  nonempty : text ≠ []
  noSlash : '/' ∉ text
  noBreak : '\n' ∉ text

/-- The text of a route. -/
def routeText (route : List RouteSegment) : List Char :=
  route.flatMap fun s => '/' :: s.text

/-- Whether a segment of a matcher stands for segments of a route. -/
def MatcherSegment.StandsFor : MatcherSegment → List RouteSegment → Prop
  | .literal text _, taken => taken.map RouteSegment.text = [text]
  | .parameter _ _ _ amount, taken => amount.Allows taken.length

/-- A route made of what a matcher's segments stand for, in order. -/
inductive Matches : List MatcherSegment → List RouteSegment → Prop
  | nil : Matches [] []
  | cons {s : MatcherSegment} {taken : List RouteSegment} {pattern : List MatcherSegment}
    {route : List RouteSegment} :
    s.StandsFor taken → Matches pattern route → Matches (s :: pattern) (taken ++ route)

/-- A slash and at least so many characters other than the given one. -/
def AfterSlash (least : Nat) (banned : Char) (w : List Char) : Prop :=
  ∃ u, w = '/' :: u ∧ least ≤ u.length ∧ banned ∉ u

/-- What the written pattern of a parameter reads. -/
def Amount.Reads : Amount → List Char → Prop
  | .one, w => AfterSlash 1 '/' w
  | .perhaps, w => w = [] ∨ AfterSlash 1 '/' w
  | .any, w => w = [] ∨ AfterSlash 0 '\n' w
  | .many, w => AfterSlash 1 '\n' w

/-- Texts that a segment reads. -/
def MatcherSegment.Reads : MatcherSegment → List Char → Prop
  | .literal text _, w => w = '/' :: text
  | .parameter _ _ _ amount, w => amount.Reads w

/-- Texts that segments read in turn. -/
def PatternReads : List MatcherSegment → List Char → Prop
  | [] => (· = [])
  | s :: pattern => Then s.Reads (PatternReads pattern)

/-- A slash and a repetition of one node. -/
def slashed (least : Nat) (n : Node) : List Node :=
  [.literal '/'.toNat, .loop .greedy least none [n]]

/-- The nodes that the written pattern of a parameter is read into. -/
def Amount.row : Amount → List Node
  | .one => slashed 1 (.notLiteral '/'.toNat)
  | .perhaps => [.loop .greedy 0 (some 1) (slashed 1 (.notLiteral '/'.toNat))]
  | .any => [.loop .greedy 0 (some 1) (slashed 0 .any)]
  | .many => slashed 1 .any

/-- The nodes that the written pattern of a segment is read into. -/
def MatcherSegment.row : MatcherSegment → List Node
  | .literal text _ => ('/' :: text).map fun c => .literal c.toNat
  | .parameter _ _ _ amount => amount.row

/-- A slash and a repeated node after it. -/
theorem readsAs_slashed [Host] {text : List Char} {n : Node} {least : Nat}
    (hrepeat : ReadsAs text [.loop .greedy least none [n]]) :
    ReadsAs ('/' :: text) (slashed least n) := by
  have hslash : ReadsAs ['/'] [.literal '/'.toNat] := readsAs_literal (by decide) (by decide)
  exact hslash.append hrepeat

/-- The written pattern of a parameter is read into its nodes. -/
theorem Amount.readsAs [Host] (a : Amount) : ReadsAs a.expression.toList a.row := by
  have hwithin : ReadsAs "/[^/]+".toList (slashed 1 (.notLiteral '/'.toNat)) :=
    readsAs_slashed (@readsAs_repeat ['^', '/', ']'] _ '[' '+' (.notLiteral '/'.toNat) (1, none)
      (by decide) (fun _ _ => rfl) rfl fun _ => rfl)
  have hany : ReadsAs "/.*".toList (slashed 0 .any) :=
    readsAs_slashed (@readsAs_repeat [] _ '.' '*' .any (0, none) (by decide) (fun _ _ => rfl) rfl
      fun _ => rfl)
  have hmany : ReadsAs "/.+".toList (slashed 1 .any) :=
    readsAs_slashed (@readsAs_repeat [] _ '.' '+' .any (1, none) (by decide) (fun _ _ => rfl) rfl
      fun _ => rfl)
  cases a with
  | one => exact hwithin
  | perhaps => exact hwithin.optional
  | any => exact hany.optional
  | many => exact hmany

/-- A literal segment stands for itself in a written pattern. -/
theorem not_mem_marks {c : Char} (hc : isLiteral c = true) : c ∉ rowMarks ∧ c ∉ atomMarks := by
  have hrow : rowMarks.all (fun d => !isLiteral d) = true := by decide
  have hatom : atomMarks.all (fun d => !isLiteral d) = true := by decide
  constructor
  · intro h
    simpa [hc] using all_eq_true.mp hrow c h
  · intro h
    simpa [hc] using all_eq_true.mp hatom c h

/-- The written pattern of a segment is read into its nodes. -/
theorem MatcherSegment.readsAs [Host] : ReadsAs s.expression s.row := by
  cases s with
  | literal text plain =>
    apply readsAs_literals
    intro c hc
    rcases mem_cons.mp hc with rfl | hmem
    · decide
    · exact not_mem_marks (plain c hmem)
  | parameter name named word amount => exact amount.readsAs

/-- No backslash stands in the written pattern of a segment. -/
theorem MatcherSegment.backslash_not_mem : '\\' ∉ s.expression := by
  cases s with
  | literal text plain =>
    intro h
    rcases mem_cons.mp h with heq | hmem
    · cases heq
    · exact absurd (plain _ hmem) (by decide)
  | parameter name named word amount =>
    show '\\' ∉ amount.expression.toList
    cases amount <;> decide

/-- The written pattern of a matcher is read segment by segment. -/
theorem readsAs_pattern [Host] :
    ReadsAs (pattern.flatMap MatcherSegment.expression) (pattern.flatMap MatcherSegment.row) := by
  induction pattern with
  | nil => exact readsAs_nil
  | cons s pattern ih => exact s.readsAs.append ih

/-- A node that reads any one character but the given one. -/
structure Excludes (n : Node) (banned : Char) : Prop where
  test : ∃ test, n.test? {} = some test ∧ ∀ c, test.accepts c = true ↔ c ≠ banned
  width : n.width = (1, 1)
  behind : n.behindWidths = []

/-- The dot reads any character but a line break. -/
theorem excludes_any : Excludes .any '\n' := by
  refine ⟨⟨_, rfl, fun c => ?_⟩, rfl, rfl⟩
  simp [CharTest.any]

/-- The complement of a character. -/
theorem excludes_notLiteral (c : Char) : Excludes (.notLiteral c.toNat) c := by
  refine ⟨⟨_, rfl, fun d => ?_⟩, rfl, rfl⟩
  simp [CharTest.literal, Char.toNat_inj]

/-- A slash and characters other than the given one are read. -/
theorem Excludes.rowReads {n : Node} {banned : Char} (h : Excludes n banned) (least : Nat) :
    RowReads (slashed least n) (AfterSlash least banned) := by
  obtain ⟨test, htest, haccepts⟩ := h.test
  have hkind : Then (· = ['/'])
      (fun w => least ≤ w.length ∧ ∀ c ∈ w, test.accepts c = true) = AfterSlash least banned := by
    funext w
    apply propext
    constructor
    · intro h
      obtain ⟨_, u, rfl, rfl, hleast, hall⟩ := h
      refine ⟨u, rfl, hleast, fun hmem => ?_⟩
      exact (haccepts banned).mp (hall banned hmem) rfl
    · intro h
      obtain ⟨u, rfl, hleast, hfree⟩ := h
      refine ⟨['/'], u, rfl, rfl, hleast, fun c hc => ?_⟩
      exact (haccepts c).mpr fun heq => hfree (heq ▸ hc)
  rw [← hkind]
  exact (reads_literal '/').cons (reads_span htest h.width h.behind least).rowReads

/-- The nodes of a parameter read what is said of its amount. -/
theorem Amount.rowReads (a : Amount) : RowReads a.row a.Reads := by
  have hwithin := (excludes_notLiteral '/').rowReads 1
  cases a with
  | one => exact hwithin
  | perhaps => exact (hwithin.optional rfl).rowReads
  | any => exact ((excludes_any.rowReads 0).optional rfl).rowReads
  | many => exact excludes_any.rowReads 1

/-- A segment's row reads what it stands for. -/
theorem MatcherSegment.rowReads : RowReads s.row s.Reads := by
  cases s with
  | literal text plain => exact rowReads_literals ('/' :: text)
  | parameter name named word amount => exact amount.rowReads

/-- The nodes of a matcher read what is said of it. -/
theorem rowReads_pattern :
    RowReads (pattern.flatMap MatcherSegment.row) (PatternReads pattern) := by
  induction pattern with
  | nil => exact rowReads_nil
  | cons s pattern ih => exact s.rowReads.append ih

/-- A route's text begins with its first segment. -/
theorem routeText_cons (s : RouteSegment) (route : List RouteSegment) :
    routeText (s :: route) = '/' :: (s.text ++ routeText route) := by
  rw [routeText, flatMap_cons, cons_append]
  rfl

/-- Routes in turn have texts in turn. -/
theorem routeText_append (first second : List RouteSegment) :
    routeText (first ++ second) = routeText first ++ routeText second :=
  flatMap_append

/-- Only the empty route has no text. -/
theorem routeText_eq_nil : routeText route = [] ↔ route = [] := by
  cases route with
  | nil => exact ⟨fun _ => rfl, fun _ => rfl⟩
  | cons s route => simp [routeText_cons]

/-- A route's text has no line break. -/
theorem break_not_mem_routeText (route : List RouteSegment) : '\n' ∉ routeText route := by
  intro h
  obtain ⟨s, -, hmem⟩ := mem_flatMap.mp h
  rcases mem_cons.mp hmem with heq | hmem
  · cases heq
  · exact s.noBreak hmem

/-- A text that is empty or begins with a slash. -/
def Opened (w : List Char) : Prop :=
  ∀ c ∈ w.head?, c = '/'

/-- Before an opened rest of a route stand its first segments. -/
theorem exists_of_routeText_eq_append {u v : List Char} (h : routeText route = u ++ v)
    (hv : Opened v) :
    ∃ first second, route = first ++ second ∧ u = routeText first ∧ v = routeText second := by
  induction route generalizing u with
  | nil =>
    obtain ⟨rfl, rfl⟩ := append_eq_nil_iff.mp h.symm
    exact ⟨[], [], rfl, rfl, rfl⟩
  | cons s route ih =>
    cases u with
    | nil => exact ⟨[], s :: route, rfl, rfl, h.symm⟩
    | cons c u =>
      rw [routeText_cons] at h
      obtain ⟨rfl, hrest⟩ := List.cons.inj h
      rcases append_eq_append_iff.mp hrest with ⟨x, rfl, hroute⟩ | ⟨x, hs, rfl⟩
      · obtain ⟨first, second, rfl, rfl, hsecond⟩ := ih hroute
        exact ⟨s :: first, second, rfl, (routeText_cons s first).symm, hsecond⟩
      · cases x with
        | nil =>
          refine ⟨[s], route, rfl, ?_, rfl⟩
          rw [routeText_cons, hs]
          simp [routeText]
        | cons c x =>
          -- The rest would begin within the segment.
          obtain rfl := hv c rfl
          exact absurd (hs ▸ mem_append_right u mem_cons_self) s.noSlash

/-- A text with one slash is one segment. -/
theorem eq_singleton_of_routeText {u : List Char} (h : routeText route = '/' :: u) (hu : '/' ∉ u) :
    route.map RouteSegment.text = [u] := by
  cases route with
  | nil => cases h
  | cons s route =>
    rw [routeText_cons] at h
    obtain ⟨-, hrest⟩ := List.cons.inj h
    cases route with
    | nil =>
      rw [← hrest]
      simp [routeText]
    | cons t route =>
      rw [routeText_cons] at hrest
      exact absurd (hrest ▸ mem_append_right s.text mem_cons_self) hu

/-- Opened texts in turn are opened. -/
theorem Opened.append {u v : List Char} (hu : Opened u) (hv : Opened v) : Opened (u ++ v) := by
  cases u with
  | nil => exact hv
  | cons c u => exact hu

/-- The empty text is opened. -/
theorem opened_nil : Opened [] := by
  intro c hc
  cases hc

/-- A slash opens a text. -/
theorem opened_cons (w : List Char) : Opened ('/' :: w) := by
  intro c hc
  exact (Option.some.inj hc).symm

/-- What follows a slash is opened. -/
theorem AfterSlash.opened {least : Nat} {banned : Char} (h : AfterSlash least banned w) :
    Opened w := by
  obtain ⟨u, rfl, -⟩ := h
  exact opened_cons u

/-- An amount reads opened texts. -/
theorem Amount.Reads.opened {a : Amount} (h : a.Reads w) : Opened w := by
  cases a with
  | one | many => exact AfterSlash.opened h
  | perhaps | any =>
    rcases h with rfl | h
    · exact opened_nil
    · exact h.opened

/-- A segment reads opened texts. -/
theorem MatcherSegment.Reads.opened {s : MatcherSegment} (h : s.Reads w) : Opened w := by
  cases s with
  | literal text plain =>
    obtain rfl : w = '/' :: text := h
    exact opened_cons text
  | parameter name named word amount => exact Amount.Reads.opened h

/-- A pattern reads opened texts. -/
theorem opened_of_patternReads {pattern : List MatcherSegment} (h : PatternReads pattern w) :
    Opened w := by
  induction pattern generalizing w with
  | nil =>
    obtain rfl : w = [] := h
    exact opened_nil
  | cons s pattern ih =>
    obtain ⟨u, v, rfl, hu, hv⟩ := h
    exact hu.opened.append (ih hv)

/-- One segment follows one slash. -/
theorem afterSlash_routeText_slash : AfterSlash 1 '/' (routeText taken) ↔ taken.length = 1 := by
  constructor
  · intro h
    obtain ⟨u, hu, -, hfree⟩ := h
    have hone := congrArg List.length (eq_singleton_of_routeText hu hfree)
    rwa [length_map] at hone
  · intro hone
    obtain ⟨s, rfl⟩ := length_eq_one_iff.mp hone
    refine ⟨s.text, ?_, length_pos_iff.mpr s.nonempty, s.noSlash⟩
    simp [routeText]

/-- Any route that is not empty is what is read within a line. -/
theorem afterSlash_routeText_break {least : Nat} (hleast : least ≤ 1) (taken : List RouteSegment) :
    AfterSlash least '\n' (routeText taken) ↔ 1 ≤ taken.length := by
  constructor
  · intro h
    obtain ⟨u, hu, -⟩ := h
    cases taken with
    | nil => cases hu
    | cons s taken => simp
  · intro hone
    obtain ⟨s, taken, rfl⟩ := exists_cons_of_length_pos hone
    refine ⟨s.text ++ routeText taken, routeText_cons s taken, ?_, fun hmem => ?_⟩
    · have htext : 0 < s.text.length := length_pos_iff.mpr s.nonempty
      rw [length_append]
      omega
    · apply break_not_mem_routeText (s :: taken)
      rw [routeText_cons]
      exact mem_cons_of_mem '/' hmem

/-- A parameter reads the routes whose number of segments it allows. -/
theorem Amount.reads_routeText (a : Amount) (taken : List RouteSegment) :
    a.Reads (routeText taken) ↔ a.Allows taken.length := by
  cases a with
  | one => exact afterSlash_routeText_slash taken
  | perhaps =>
    show _ ∨ _ ↔ taken.length ≤ 1
    rw [routeText_eq_nil, afterSlash_routeText_slash, ← length_eq_zero_iff]
    omega
  | any =>
    show _ ∨ _ ↔ True
    rw [routeText_eq_nil, afterSlash_routeText_break (Nat.zero_le 1), ← length_eq_zero_iff,
      iff_true]
    omega
  | many => exact afterSlash_routeText_break (Nat.le_refl 1) taken

/-- A segment reads what it stands for. -/
theorem MatcherSegment.reads_routeText : s.Reads (routeText taken) ↔ s.StandsFor taken := by
  cases s with
  | literal text plain =>
    constructor
    · intro h
      apply eq_singleton_of_routeText h
      intro hmem
      exact absurd (plain _ hmem) (by decide)
    · intro h
      obtain ⟨t, rfl, ht⟩ := map_eq_singleton_iff.mp h
      show routeText [t] = '/' :: text
      simp [routeText, ht]
  | parameter name named word amount => exact amount.reads_routeText taken

/-- A matcher reads the routes that match it segment by segment. -/
theorem patternReads_routeText (route : List RouteSegment) :
    PatternReads pattern (routeText route) ↔ Matches pattern route := by
  induction pattern generalizing route with
  | nil =>
    constructor
    · intro h
      obtain rfl := routeText_eq_nil.mp h
      exact .nil
    · intro h
      cases h
      rfl
  | cons s pattern ih =>
    constructor
    · intro h
      obtain ⟨u, v, heq, hu, hv⟩ := h
      obtain ⟨taken, rest, rfl, rfl, rfl⟩ :=
        exists_of_routeText_eq_append heq (opened_of_patternReads hv)
      exact .cons ((s.reads_routeText taken).mp hu) ((ih rest).mp hv)
    · intro h
      cases h with
      | @cons _ taken _ rest hs hrest =>
        exact ⟨routeText taken, routeText rest, routeText_append taken rest,
          (s.reads_routeText taken).mpr hs, (ih rest).mpr hrest⟩

/-- A route ends at no line break. -/
theorem then_atLastLineEnd_routeText (kind : List Char → Prop) (route : List RouteSegment) :
    Then kind AtLastLineEnd (routeText route) ↔ kind (routeText route) := by
  constructor
  · intro h
    obtain ⟨u, v, heq, hu, hend⟩ := h
    rcases hend with rfl | rfl
    · rw [heq, append_nil]
      exact hu
    · exact absurd (heq ▸ mem_append_right u mem_cons_self)
        (break_not_mem_routeText route)
  · intro h
    exact ⟨routeText route, [], (append_nil _).symm, h, .inl rfl⟩

/-- A matcher made of segments has a pattern, which covers a route exactly if the route matches
segment by segment. -/
theorem matcher_covers_iff_matches [Host] (pattern : List MatcherSegment) :
    ∃ e, readMatcher (pattern.flatMap MatcherSegment.text) = .ok (some e) ∧
      ∀ route : List RouteSegment, covers e (routeText route) = true ↔ Matches pattern route := by
  have hplain : '\\' ∉ pattern.flatMap MatcherSegment.expression := by
    intro h
    obtain ⟨s, -, hmem⟩ := List.mem_flatMap.mp h
    exact s.backslash_not_mem hmem
  obtain ⟨e, he, haccepts⟩ :=
    (rowReads_pattern pattern).accepts ((readsAs_pattern pattern).read hplain)
  refine ⟨e, ?_, fun route => ?_⟩
  · rw [readMatcher, matcherExpression_flatMap_text, List.cons_append, he]
  · rw [covers, haccepts, then_atLastLineEnd_routeText, patternReads_routeText]

end SiteAtlas.Route
