import SiteAtlas.Proofs.NeededTexts
import SiteAtlas.Route.Matcher

/-!
# Rewriting matchers

A matcher becomes a written pattern in four passes, one for each mark and one for parameters
without. A pass could change what an earlier one has put in, or mistake a mark. On matchers made
of segments neither happens: each pass replaces the parameters of one amount (`replaceBy_written`),
so a matcher is rewritten segment by segment (`matcherExpression_flatMap_text`).
-/

namespace SiteAtlas.Route

open List Pattern

variable {name : List Char}

/-- How many segments of a route a parameter stands for. -/
inductive Amount where
  | one
  | perhaps
  | any
  | many
  deriving DecidableEq

namespace Amount

/-- The mark behind a name. -/
def mark : Amount → List Char
  | .one => []
  | .perhaps => ['?']
  | .any => ['*']
  | .many => ['+']

/-- Whether a number of segments is one that a parameter stands for. -/
def Allows : Amount → Nat → Prop
  | .one, n => n = 1
  | .perhaps, n => n ≤ 1
  | .any, _ => True
  | .many, n => 1 ≤ n

/-- The written pattern for the segments that a parameter stands for. -/
def expression : Amount → String
  | .one => "/[^/]+"
  | .perhaps => "(?:/[^/]+)?"
  | .any => "(?:/.*)?"
  | .many => "/.+"

end Amount

/-- Characters of a segment without a parameter. -/
def isLiteral (c : Char) : Bool :=
  c.isAlphanum || c == '-' || c == '_'

/-- A segment of a matcher. -/
inductive MatcherSegment where
  /-- A segment that stands for itself. -/
  | literal (text : List Char) (plain : ∀ c ∈ text, isLiteral c = true)
  /-- A name after a colon, with a mark for the segments it stands for. -/
  | parameter (name : List Char) (named : name ≠ []) (word : ∀ c ∈ name, Text.isWord c = true)
    (amount : Amount)

/-- A segment as it is written. -/
def MatcherSegment.text : MatcherSegment → List Char
  | .literal text _ => '/' :: text
  | .parameter name _ _ amount => '/' :: ':' :: (name ++ amount.mark)

/-- What stands in the place of a piece. -/
def shownPiece (replacement : String) : Piece → List Char
  | .plain c => [c]
  | .hit _ => replacement.toList

/-- The end of a text, or a character that begins a segment. -/
def Follows (rest : List Char) : Prop :=
  ∀ c ∈ rest.head?, c = '/' ∨ c = '('

/-- Characters that begin a segment are no word characters. -/
theorem Follows.isWord_eq_false {rest : List Char} (h : Follows rest) {c : Char}
    (hc : c ∈ rest.head?) : Text.isWord c = false := by
  rcases h c hc with rfl | rfl
  · decide
  · decide

/-- In a text, whatever is around, matches are replaced as given. -/
def Rewrites (p : Pattern) (replacement : String) (text out : List Char) : Prop :=
  ∀ before offset rest, Follows rest →
    (p.piecesFrom 0 before offset (text ++ rest)).flatMap (shownPiece replacement) =
      out ++ (p.piecesFrom 0 (text.reverse ++ before) (offset + text.length) rest).flatMap
        (shownPiece replacement)

variable {p : Pattern} {replacement : String} {text : List Char}

/-- A text in which a pattern is nowhere read is left as it is. -/
theorem rewrites_self
    (h : ∀ rest, Follows rest → ∀ u, u <:+ text → u ≠ [] → p.FailsAt (u ++ rest)) :
    Rewrites p replacement text text := by
  intro before offset rest hrest
  rw [piecesFrom_of_failsAt (h rest hrest), flatMap_append, flatMap_map]
  congr 1
  exact flatMap_singleton' text

/-- A text that a pattern reads is replaced. -/
theorem rewrites_hit (hne : text ≠ []) (h : ∀ rest, Follows rest → p.Reads text rest []) :
    Rewrites p replacement text replacement.toList := by
  intro before offset rest hrest
  obtain ⟨m, hmatch, htext, -⟩ := (h rest hrest).exists_matchAt before offset
  rw [piecesFrom_hit hne hmatch htext, flatMap_cons, shownPiece]

/-- Texts replaced segment by segment are replaced as a whole. -/
theorem replaceBy_flatMap {α : Type} {f g : α → List Char}
    (h : ∀ a, Rewrites p replacement (f a) (g a))
    (hopen : ∀ a, ∃ c rest, f a = c :: rest ∧ (c = '/' ∨ c = '(')) (items : List α) :
    replaceBy p replacement (items.flatMap f) = items.flatMap g := by
  have hrest : ∀ items : List α, Follows (items.flatMap f) := by
    intro items
    cases items with
    | nil => exact fun c hc => by cases hc
    | cons a items =>
      obtain ⟨c, rest, hfirst, hc⟩ := hopen a
      rw [flatMap_cons, hfirst]
      intro d hd
      obtain rfl := Option.some.inj hd
      exact hc
  have hfrom : ∀ before offset,
      (p.piecesFrom 0 before offset (items.flatMap f)).flatMap (shownPiece replacement) =
        items.flatMap g := by
    induction items with
    | nil => intro before offset; rfl
    | cons a items ih =>
      intro before offset
      rw [flatMap_cons, h a _ _ _ (hrest items), ih, flatMap_cons]
  exact hfrom [] 0

/-- A parameter opens with slash and colon. -/
theorem opens_markedParameter (mark : Char) : (markedParameter mark).Opens "/:" :=
  (opens_text "/:").append.append

/-- Where no colon follows a slash, no parameter has a mark. -/
theorem rewrites_markedParameter_self (mark : Char) (h : ¬ ['/', ':'] <:+: text) :
    Rewrites (markedParameter mark) replacement text text := by
  apply rewrites_self
  intro rest hrest u hu hne
  apply (opens_markedParameter mark).failsAt
  intro hopens
  obtain ⟨x, u, rfl⟩ := exists_cons_of_ne_nil hne
  cases u with
  | nil =>
    -- The colon would have to be the first character of the next segment.
    obtain ⟨-, hcolon⟩ := cons_prefix_cons.mp hopens
    cases rest with
    | nil => simp at hcolon
    | cons c rest =>
      obtain ⟨rfl, -⟩ := cons_prefix_cons.mp hcolon
      rcases hrest _ rfl with hc | hc
      · cases hc
      · cases hc
  | cons y u =>
    obtain ⟨hx, hcolon⟩ := cons_prefix_cons.mp hopens
    obtain ⟨hy, -⟩ := cons_prefix_cons.mp hcolon
    subst hx hy
    exact h ((prefix_append _ u).isInfix.trans hu.isInfix)

/-- A name holds no slash. -/
theorem slash_not_mem_name (hword : ∀ c ∈ name, Text.isWord c = true) : '/' ∉ name := by
  intro h
  exact absurd (hword _ h) (by decide)

/-- A parameter with another mark, or none, is left as it is. -/
theorem rewrites_markedParameter_other {mark : Char} {tail : List Char}
    (hname : ∀ c ∈ name, Text.isWord c = true) (hmark : Text.isWord mark = false)
    (htail : ∀ rest, Follows rest → ∀ c more, tail ++ rest = c :: more →
      Text.isWord c = false ∧ c ≠ mark) (hslash : '/' ∉ tail) :
    Rewrites (markedParameter mark) replacement ('/' :: ':' :: (name ++ tail))
      ('/' :: ':' :: (name ++ tail)) := by
  apply rewrites_self
  intro rest hrest u hu hne
  rcases suffix_cons_iff.mp hu with rfl | hu
  · apply failsAt_of_spells
    rintro _ more ⟨_, _, rfl, ⟨a, b, rfl, ha, hb⟩, hc⟩ heq
    obtain rfl := spells_text.mp ha
    obtain rfl := spells_char.mp hc
    obtain ⟨-, hall⟩ := spells_loop_one.mp hb
    have hcut : name ++ (tail ++ rest) = b ++ mark :: more := by simpa using heq
    cases hrestTail : tail ++ rest with
    | nil =>
      rw [hrestTail, append_nil] at hcut
      have hmem : mark ∈ name := hcut ▸ mem_append_right b mem_cons_self
      exact Bool.noConfusion (hmark.symm.trans (hname mark hmem))
    | cons c after =>
      rw [hrestTail] at hcut
      obtain ⟨hword, hother⟩ := htail rest hrest c after hrestTail
      exact hother (Text.eq_of_cut Text.isWord hname hall hword hmark hcut).2.1
  · have hbegins : (markedParameter mark).Begins (· == '/') := by
      intro x hx
      exact hx
    apply hbegins.failsAt
    obtain ⟨x, v, rfl⟩ := exists_cons_of_ne_nil hne
    have hmem : x ∈ ':' :: (name ++ tail) := hu.subset mem_cons_self
    have hfree : '/' ∉ ':' :: (name ++ tail) := by
      simp [slash_not_mem_name hname, hslash]
    show (x == '/') = false
    rw [beq_eq_false_iff_ne]
    intro heq
    subst heq
    exact hfree hmem

/-- A parameter with its mark is replaced. -/
theorem rewrites_markedParameter_hit {mark : Char} (hne : name ≠ [])
    (hname : ∀ c ∈ name, Text.isWord c = true) (hmark : Text.isWord mark = false) :
    Rewrites (markedParameter mark) replacement ('/' :: ':' :: (name ++ [mark]))
      replacement.toList := by
  apply rewrites_hit
  · simp
  · intro rest _
    have hstop : headIs Text.isWord ([mark] ++ rest) = false := hmark
    have hreads : (markedParameter mark).Reads (("/:".toList ++ name) ++ [mark]) rest [] :=
      ((reads_text "/:" _).seq (reads_many1 hne hname hstop)).seq (reads_char mark rest)
    simpa using hreads

/-- A parameter begins with a colon. -/
theorem begins_parameter : parameter.Begins (· == ':') := by
  intro x hx
  exact hx

/-- A text without a colon holds no parameter. -/
theorem rewrites_parameter_plain (h : ':' ∉ text) : Rewrites parameter replacement text text := by
  apply rewrites_self
  intro rest _ u hu hne
  obtain ⟨x, v, rfl⟩ := exists_cons_of_ne_nil hne
  apply begins_parameter.failsAt
  show (x == ':') = false
  rw [beq_eq_false_iff_ne]
  intro heq
  subst heq
  exact h (hu.subset mem_cons_self)

/-- Without a colon nothing is replaced. -/
theorem rewrites_parameter_colon (first last : List Char) (hfirst : ':' ∉ first)
    (hlast : ':' ∉ last) :
    Rewrites parameter replacement (first ++ ':' :: '/' :: last) (first ++ ':' :: '/' :: last) := by
  apply rewrites_self
  intro rest _ u hu hne
  obtain ⟨x, v, rfl⟩ := exists_cons_of_ne_nil hne
  by_cases hx : x = ':'
  · subst hx
    obtain ⟨w, hw⟩ := hu
    obtain ⟨z, -, hz⟩ := Text.exists_within hfirst hw
    cases z with
    | nil =>
      obtain ⟨-, rfl⟩ := List.cons.inj hz
      apply failsAt_char_append
      intro more hmore
      obtain ⟨-, rfl⟩ := List.cons.inj hmore
      have hword : word.Begins Text.isWord := ⟨Nat.one_pos, fun c hc => hc⟩
      exact hword.failsAt (by decide : Text.isWord '/' = false)
    | cons c z =>
      obtain ⟨-, hrest⟩ := List.cons.inj hz
      have hmem : ':' ∈ '/' :: last := hrest ▸ mem_append_right z mem_cons_self
      simp [hlast] at hmem
  · apply begins_parameter.failsAt
    exact beq_eq_false_iff_ne.mpr hx

/-- A parameter is replaced by what its segment is made of. -/
theorem rewrites_parameter_hit (hne : name ≠ []) (hname : ∀ c ∈ name, Text.isWord c = true) :
    Rewrites parameter replacement ('/' :: ':' :: name) ('/' :: replacement.toList) := by
  have hname : Rewrites parameter replacement (':' :: name) replacement.toList := by
    apply rewrites_hit
    · simp
    · intro rest hrest
      have hstop : headIs Text.isWord rest = false := by
        cases rest with
        | nil => rfl
        | cons c rest => exact hrest.isWord_eq_false rfl
      exact (reads_char ':' _).seq (reads_many1 hne hname hstop)
  intro before offset rest hrest
  have hfails : parameter.FailsAt ('/' :: (':' :: name ++ rest)) :=
    begins_parameter.failsAt (by decide : ('/' == ':') = false)
  have hlast := hname ('/' :: before) (offset + 1) rest hrest
  have hbefore : ('/' :: ':' :: name).reverse ++ before =
      (':' :: name).reverse ++ '/' :: before := by
    simp
  have hoffset : offset + ('/' :: ':' :: name).length = offset + 1 + (':' :: name).length := by
    simp only [length_cons]
    omega
  rw [hbefore, hoffset, cons_append, piecesFrom, hfails.matchAt_eq_none, flatMap_cons, hlast]
  rfl

/-- The written pattern that a segment becomes. -/
def MatcherSegment.expression : MatcherSegment → List Char
  | .literal text _ => '/' :: text
  | .parameter _ _ _ amount => amount.expression.toList

/-- A segment after the parameters of some amounts were replaced. -/
def MatcherSegment.written (done : List Amount) : MatcherSegment → List Char
  | .literal text _ => '/' :: text
  | .parameter name _ _ amount =>
    if amount ∈ done then amount.expression.toList else '/' :: ':' :: (name ++ amount.mark)

/-- At first, segments are written as they are. -/
theorem written_nil : MatcherSegment.written [] = MatcherSegment.text := by
  funext s
  cases s <;> rfl

/-- The expression of an amount begins with a slash or with a group. -/
theorem Amount.exists_expression_eq (a : Amount) :
    ∃ c rest, a.expression.toList = c :: rest ∧ (c = '/' ∨ c = '(') := by
  cases a with
  | one | many => exact ⟨'/', _, rfl, .inl rfl⟩
  | perhaps | any => exact ⟨'(', _, rfl, .inr rfl⟩

/-- The text of a segment begins with a slash or with a group. -/
theorem exists_written_eq (done : List Amount) (s : MatcherSegment) :
    ∃ c rest, s.written done = c :: rest ∧ (c = '/' ∨ c = '(') := by
  cases s with
  | literal text plain => exact ⟨'/', text, rfl, .inl rfl⟩
  | parameter name named word amount =>
    rw [MatcherSegment.written]
    split
    · exact amount.exists_expression_eq
    · exact ⟨'/', _, rfl, .inl rfl⟩

/-- A literal holds no colon. -/
theorem colon_not_mem_literal {text : List Char} (plain : ∀ c ∈ text, isLiteral c = true) :
    ':' ∉ text := by
  intro h
  exact absurd (plain _ h) (by decide)

/-- In the expression of an amount, no colon follows a slash. -/
theorem Amount.not_infix_expression (a : Amount) : ¬ ['/', ':'] <:+: a.expression.toList := by
  cases a <;> simp [Amount.expression, infix_cons_iff]

/-- No mark of an amount is a word character, or begins a segment. -/
theorem Amount.mark_ne {a : Amount} {mark : Char} (hmark : a.mark = [mark]) :
    Text.isWord mark = false ∧ mark ≠ '/' ∧ mark ≠ '(' := by
  cases a <;> cases hmark <;> decide

/-- After a parameter comes no part of its name, nor another mark. -/
theorem Amount.ne_of_mark_append {a b : Amount} (hne : b ≠ a) {mark : Char}
    (hmark : a.mark = [mark]) {rest : List Char} (hrest : Follows rest) {c : Char}
    {more : List Char} (hc : b.mark ++ rest = c :: more) : Text.isWord c = false ∧ c ≠ mark := by
  cases hb : b.mark with
  | nil =>
    have hhead : c ∈ rest.head? := by
      rw [hb] at hc
      rw [show rest = c :: more from hc]
      rfl
    obtain ⟨-, hslash, hopen⟩ := mark_ne hmark
    refine ⟨hrest.isWord_eq_false hhead, ?_⟩
    rcases hrest c hhead with rfl | rfl
    · exact hslash.symm
    · exact hopen.symm
  | cons d others =>
    have hd : b.mark = [d] := by
      cases b <;> cases hb <;> rfl
    rw [hd] at hc
    obtain ⟨rfl, -⟩ := List.cons.inj hc
    refine ⟨(mark_ne hd).1, ?_⟩
    intro heq
    subst heq
    apply hne
    cases a <;> cases b <;> cases hmark <;> cases hd <;> rfl

/-- The parameters of one amount are replaced by its expression. -/
theorem rewrites_written {a : Amount} {mark : Char} (hmark : a.mark = [mark])
    {done : List Amount} (hdone : a ∉ done) (s : MatcherSegment) :
    Rewrites (markedParameter mark) a.expression (s.written done) (s.written (a :: done)) := by
  have hword : Text.isWord mark = false := (Amount.mark_ne hmark).1
  cases s with
  | literal text plain =>
    apply rewrites_markedParameter_self
    intro hinfix
    have hmem : ':' ∈ '/' :: text := hinfix.subset (by simp)
    simp [colon_not_mem_literal plain] at hmem
  | parameter name named word b =>
    simp only [MatcherSegment.written]
    by_cases hb : b ∈ done
    · rw [if_pos hb, if_pos (mem_cons_of_mem a hb)]
      exact rewrites_markedParameter_self mark b.not_infix_expression
    rw [if_neg hb]
    by_cases hba : b = a
    · subst hba
      rw [if_pos mem_cons_self, hmark]
      exact rewrites_markedParameter_hit named word hword
    · rw [if_neg (by simp [hb, hba])]
      apply rewrites_markedParameter_other word hword
      · intro rest hrest c more hc
        exact Amount.ne_of_mark_append hba hmark hrest hc
      · cases b <;> decide

/-- At last, the parameters without a mark are replaced. -/
theorem rewrites_written_parameter (s : MatcherSegment) :
    Rewrites parameter "[^/]+" (s.written [.perhaps, .many, .any]) s.expression := by
  cases s with
  | literal text plain =>
    apply rewrites_parameter_plain
    show ':' ∉ '/' :: text
    simp [colon_not_mem_literal plain]
  | parameter name named word amount =>
    cases amount with
    | one =>
      show Rewrites parameter "[^/]+" ('/' :: ':' :: (name ++ [])) ('/' :: "[^/]+".toList)
      rw [append_nil]
      exact rewrites_parameter_hit named word
    | perhaps => exact rewrites_parameter_colon ['(', '?'] "[^/]+)?".toList (by decide) (by decide)
    | any => exact rewrites_parameter_colon ['(', '?'] ".*)?".toList (by decide) (by decide)
    | many =>
      apply rewrites_parameter_plain
      show ':' ∉ "/.+".toList
      decide

/-- A pass over a matcher replaces the parameters of one amount. -/
theorem replaceBy_written {a : Amount} {mark : Char} (hmark : a.mark = [mark])
    {done : List Amount} (hdone : a ∉ done) (pattern : List MatcherSegment) :
    replaceBy (markedParameter mark) a.expression (pattern.flatMap (MatcherSegment.written done)) =
      pattern.flatMap (MatcherSegment.written (a :: done)) :=
  replaceBy_flatMap (rewrites_written hmark hdone) (exists_written_eq done) pattern

/-- A matcher is rewritten segment by segment. -/
theorem matcherExpression_flatMap_text (pattern : List MatcherSegment) :
    matcherExpression (pattern.flatMap MatcherSegment.text) =
      '^' :: pattern.flatMap MatcherSegment.expression ++ ['$'] := by
  have hany := @replaceBy_written .any '*' rfl [] (by decide) pattern
  have hmany := @replaceBy_written .many '+' rfl [.any] (by decide) pattern
  have hperhaps := @replaceBy_written .perhaps '?' rfl [.many, .any] (by decide) pattern
  have hone := replaceBy_flatMap rewrites_written_parameter (exists_written_eq _) pattern
  simp only [Amount.expression] at hany hmany hperhaps
  simp only [matcherExpression]
  rw [← written_nil, hany, hmany, hperhaps, hone]

end SiteAtlas.Route
