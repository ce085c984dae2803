import SiteAtlas.Data.Json.Comments
import SiteAtlas.Proofs.GapReading
import SiteAtlas.Proofs.JsonDocuments

/-!
# Comments that are stripped from JSON texts

Strings and comments are found from left to right, each as a whole, so a text is stripped of its
comments and of nothing else. That a part becomes another does not depend on what is around it, and
the parts are put together along the document.
-/

namespace SiteAtlas

open List

variable {c : Char} {body : List Char}

/-- What a piece becomes when a match gives its capture. -/
def Piece.reduced : Piece → List Char
  | .plain c => [c]
  | .hit m => m.group 1

namespace Pattern

variable {p q r : Pattern} {text rest : List Char} {captured : List (Nat × List Char)}

/-- What a text becomes when matches give their captures. -/
def reduceFrom (p : Pattern) (before : List Char) (offset : Nat) (cs : List Char) : List Char :=
  (p.piecesFrom 0 before offset cs).flatMap Piece.reduced

/-- Replacing by captures reduces. -/
theorem replaceAll_group (p : Pattern) (cs : List Char) :
    p.replaceAll (·.group 1) cs = p.reduceFrom [] 0 cs := by
  rw [replaceAll, reduceFrom, pieces]
  congr 1

/-- Characters that a pattern does not begin with stay. -/
theorem Begins.reduceFrom {accepts : Char → Bool} (h : p.Begins accepts)
    (htext : ∀ x ∈ text, accepts x = false) (rest before : List Char) (offset : Nat) :
    p.reduceFrom before offset (text ++ rest) =
      text ++ p.reduceFrom (text.reverse ++ before) (offset + text.length) rest := by
  rw [Pattern.reduceFrom, piecesFrom_plain h htext, flatMap_append, flatMap_map]
  exact congrArg (· ++ _) (flatMap_singleton' text)

/-- A character stays where a pattern cannot be read. -/
theorem FailsAt.reduceFrom (h : p.FailsAt (c :: rest)) (before : List Char) (offset : Nat) :
    p.reduceFrom before offset (c :: rest) = c :: p.reduceFrom (c :: before) (offset + 1) rest := by
  rw [Pattern.reduceFrom, piecesFrom, h.matchAt_eq_none]
  rfl

/-- A first reading is replaced by what it captured. -/
theorem Reads.reduceFrom (h : p.Reads text rest captured) (hne : text ≠ []) (before : List Char)
    (offset : Nat) : p.reduceFrom before offset (text ++ rest) = (captured.lookup 1).getD [] ++
      p.reduceFrom (text.reverse ++ before) (offset + text.length) rest := by
  obtain ⟨m, hmatch, htext, hgroups⟩ := h.exists_matchAt before offset
  rw [Pattern.reduceFrom, piecesFrom_hit hne hmatch htext, flatMap_cons, Piece.reduced,
    Match.group, hgroups]
  rfl

/-- Three parts are read in order however they are put together. -/
theorem Reads.assoc (h : (p ++ (q ++ r)).Reads text rest captured) :
    (p ++ q ++ r).Reads text rest captured :=
  h

/-- With enough turns, a repetition goes on until none is read. -/
theorem exists_furtherTurns {turns : List (List Char)}
    (hturns : ∀ turn ∈ turns, turn ≠ [] ∧ ∀ more, p.Reads turn more []) (hrest : p.FailsAt rest)
    {c : Cursor} (hc : c.after = turns.flatten ++ rest) :
    ∃ d, c.Past turns.flatten d ∧ d.captured = c.captured ∧
      ∀ {β : Type} (k : Cursor → Option β) (bound : Nat), turns.flatten.length ≤ bound →
        (k d).isSome = true → furtherTurns p.run .greedy bound c k = k d := by
  induction turns generalizing c with
  | nil =>
    refine ⟨c, ⟨rfl, rfl⟩, rfl, fun k bound _ _ => ?_⟩
    cases bound with
    | zero => rfl
    | succ bound => rw [furtherTurns, hrest.run_eq_none hc, Option.none_or]
  | cons turn turns ih =>
    obtain ⟨hne, hread⟩ := hturns turn mem_cons_self
    rw [flatten_cons, append_assoc] at hc
    obtain ⟨e, hprefers, hpast, hcaptured⟩ := hread _ c hc
    obtain ⟨d, hmore, hsame, hk⟩ := ih (fun other hother =>
      hturns other (mem_cons_of_mem turn hother)) (after_eq_of_past hc hpast)
    refine ⟨d, hpast.trans hmore, hsame.trans hcaptured, fun k bound hbound hsome => ?_⟩
    have hlength := length_pos_iff.mpr hne
    rw [flatten_cons, length_append] at hbound
    obtain ⟨bound, rfl⟩ : ∃ fewer, bound = fewer + 1 := ⟨bound - 1, by omega⟩
    have hnext := hk k bound (by omega) hsome
    have hmoved : e.offset ≠ c.offset := by
      rw [hpast.offset]
      omega
    rw [furtherTurns, hprefers, if_neg hmoved, hnext, Option.or_of_isSome hsome]
    rw [if_neg hmoved, hnext]
    exact hsome

/-- A repetition reads turns up to where none can be. -/
theorem reads_many_turns {turns : List (List Char)}
    (hturns : ∀ turn ∈ turns, turn ≠ [] ∧ ∀ more, p.Reads turn more []) (hrest : p.FailsAt rest) :
    (many p).Reads turns.flatten rest [] := by
  intro c hc
  obtain ⟨d, hpast, hcaptured, hk⟩ := exists_furtherTurns hturns hrest hc
  refine ⟨d, fun k hsome => hk k _ ?_ hsome, hpast, hcaptured⟩
  simp only [turnBound, hc, length_append]
  omega

end Pattern

namespace Data.Json

open Pattern

variable {kind : Container}

/-- A character of a string, or a pair with a backslash. -/
def stringTurn : Pattern :=
  .either (char '\\' ++ Pattern.any) (noneOf "\"\\")

/-- What a string reads in turns. -/
def CharText.turns : CharText → List (List Char)
  | .plain c _ => [[c]]
  | .escaped letter _ _ => [['\\', letter]]
  | .code a b c d _ _ => [['\\', 'u'], [a], [b], [c], [d]]

/-- The turns make up the text of a string. -/
theorem flatten_turns (chars : List CharText) :
    (chars.flatMap CharText.turns).flatten = chars.flatMap CharText.text := by
  induction chars with
  | nil => rfl
  | cons t chars ih =>
    rw [flatMap_cons, flatten_append, ih, flatMap_cons]
    cases t <;> rfl

/-- A digit of a code is neither a quote nor a backslash. -/
theorem ne_of_hexValue? {n : Nat} (h : hexValue? c = some n) : c ≠ '"' ∧ c ≠ '\\' := by
  constructor <;> rintro rfl <;> cases h

/-- A character of a string is passed over in turns. -/
theorem reads_turns (t : CharText) :
    ∀ turn ∈ t.turns, turn ≠ [] ∧ ∀ more, stringTurn.Reads turn more [] := by
  have hbegins : (char '\\' ++ Pattern.any).Begins (· == '\\') := fun _ hx => hx
  have hpair (c : Char) : ['\\', c] ≠ [] ∧ ∀ more, stringTurn.Reads ['\\', c] more [] :=
    ⟨cons_ne_nil _ _, fun more => ((reads_char '\\' _).seq (reads_one rfl more)).either_left⟩
  have hplain {c : Char} (h : c ≠ '"' ∧ c ≠ '\\') :
      [c] ≠ [] ∧ ∀ more, stringTurn.Reads [c] more [] :=
    ⟨cons_ne_nil _ _, fun more => (reads_one (by simp [h]) more).either_right
      (hbegins.failsAt (beq_eq_false_iff_ne.mpr h.2))⟩
  cases t with
  | plain c h => simpa only [CharText.turns, forall_mem_singleton] using hplain ⟨h.1, h.2.1⟩
  | escaped letter c h => simpa only [CharText.turns, forall_mem_singleton] using hpair letter
  | code a b c d n h =>
    simp only [hex4?, Option.bind_eq_bind, Option.bind_eq_some_iff] at h
    obtain ⟨_, ha, _, hb, _, hc, _, hd, -⟩ := h
    simp only [CharText.turns, forall_mem_cons]
    exact ⟨hpair 'u', hplain (ne_of_hexValue? ha), hplain (ne_of_hexValue? hb),
      hplain (ne_of_hexValue? hc), hplain (ne_of_hexValue? hd), forall_mem_nil _⟩

/-- A string is passed over as a whole. -/
theorem reads_quoted (chars : List CharText) (rest : List Char) :
    stringOrComment.Reads (quoted chars) rest [(1, quoted chars)] := by
  have hend : stringTurn.FailsAt ('"' :: rest) := by
    have hbegins : stringTurn.Begins (· != '"') := by
      refine ⟨fun x hx => ?_, fun x hx => ?_⟩
      · rw [beq_iff_eq.mp hx]
        rfl
      · simp at hx ⊢
        exact hx.1
    exact hbegins.failsAt rfl
  have hinside : (many stringTurn).Reads (chars.flatMap CharText.text) ('"' :: rest) [] := by
    have hturns : ∀ turn ∈ chars.flatMap CharText.turns,
        turn ≠ [] ∧ ∀ more, stringTurn.Reads turn more [] := by
      intro turn hturn
      obtain ⟨t, -, ht⟩ := mem_flatMap.mp hturn
      exact reads_turns t turn ht
    exact (reads_many_turns hturns hend).of_eq (flatten_turns chars) rfl
  have hquoted : (char '"' ++ many stringTurn ++ char '"').Reads
      (['"'] ++ chars.flatMap CharText.text ++ ['"']) rest [] :=
    ((reads_char '"' _).seq hinside).seq (reads_char '"' rest)
  exact (hquoted.capture 1).either_left

/-- No string begins where a comment does. -/
theorem failsAt_string (rest : List Char) :
    (capture 1 (char '"' ++ many stringTurn ++ char '"')).FailsAt ('/' :: rest) := by
  have hbegins : (capture 1 (char '"' ++ many stringTurn ++ char '"')).Begins (· == '"') :=
    fun _ hx => hx
  exact hbegins.failsAt rfl

/-- A line comment is read to its end. -/
theorem reads_line (h : '\n' ∉ body) {rest : List Char} (hrest : headIs (· != '\n') rest = false) :
    stringOrComment.Reads ("//".toList ++ body) rest [] := by
  have hbody : (many (noneOf "\n")).Reads body rest [] := by
    refine reads_many (fun x hx => ?_) ?_
    · have hne : x ≠ '\n' := fun heq => h (heq ▸ hx)
      simp [hne]
    · cases rest with
      | nil => rfl
      | cons x rest => simpa [headIs] using hrest
  exact (((reads_text "//" _).seq hbody).either_left).either_right (failsAt_string _)

/-- A block comment is read to its end. -/
theorem reads_block (h : ¬ "*/".toList <:+: body) (rest : List Char) :
    stringOrComment.Reads ("/*".toList ++ body ++ "*/".toList) rest [] := by
  have hgap : (few any ++ text "*/").Reads (body ++ "*/".toList) rest [] := by
    refine (reads_text "*/" rest).lazy_gap (fun _ _ => rfl) fun v hv hne => ?_
    refine failsAt_of_spells fun spelled more hspells heq => ?_
    rw [spells_text.mp hspells] at heq
    -- The end of a comment that begins within the body is all of it within the body.
    obtain ⟨x, v, rfl⟩ := exists_cons_of_ne_nil hne
    cases v with
    | nil => simp at heq
    | cons y v =>
      simp at heq
      obtain ⟨rfl, rfl, -⟩ := heq
      have hends : "*/".toList <:+: '*' :: '/' :: v := ⟨[], v, by simp⟩
      exact h (hends.trans hv.isInfix)
  have hline : (text "//" ++ many (noneOf "\n")).FailsAt
      ("/*".toList ++ body ++ "*/".toList ++ rest) := by
    refine failsAt_text_append fun more heq => ?_
    simp at heq
  have hblock := ((reads_text "/*" _).seq hgap).assoc
  rw [← append_assoc] at hblock
  exact (hblock.either_right hline).either_right (failsAt_string _)

/-- A part becomes another when comments are stripped. -/
def Strips (a b : List Char) : Prop :=
  ∀ before offset rest, stringOrComment.reduceFrom before offset (a ++ rest) =
    b ++ stringOrComment.reduceFrom (a.reverse ++ before) (offset + a.length) rest

/-- Parts are stripped in turn. -/
theorem Strips.append {a b c d : List Char} (hab : Strips a b) (hcd : Strips c d) :
    Strips (a ++ c) (b ++ d) := by
  intro before offset rest
  rw [append_assoc, hab, hcd, append_assoc, reverse_append, append_assoc,
    length_append, Nat.add_assoc]

/-- Nothing becomes nothing. -/
theorem Strips.nil : Strips [] [] :=
  fun _ _ _ => rfl

/-- Whether a string or a comment can begin with a character. -/
def isOpening (c : Char) : Bool :=
  c == '"' || c == '/'

/-- Strings and comments begin with a quote or a slash. -/
theorem begins_stringOrComment : stringOrComment.Begins isOpening := by
  refine ⟨fun x hx => ?_, fun x hx => ?_, fun x hx => ?_⟩
  all_goals
    rw [beq_iff_eq.mp hx]
    rfl

/-- A text without quotes and slashes stays. -/
theorem Strips.plain {cs : List Char} (h : ∀ c ∈ cs, isOpening c = false) : Strips cs cs :=
  fun before offset rest => begins_stringOrComment.reduceFrom h rest before offset

/-- A character that opens neither a string nor a comment stays. -/
theorem Strips.singleton (h : isOpening c = false) : Strips [c] [c] :=
  .plain (forall_mem_singleton.mpr h)

/-- A string stays. -/
theorem Strips.quoted (chars : List CharText) : Strips (quoted chars) (quoted chars) :=
  fun before offset rest =>
    (reads_quoted chars rest).reduceFrom (cons_ne_nil _ _) before offset

/-- Of a line comment, the end of its line stays. -/
theorem Strips.line (h : '\n' ∉ body) : Strips ("//".toList ++ body ++ ['\n']) ['\n'] := by
  intro before offset rest
  have hread : stringOrComment.Reads ("//".toList ++ body) (['\n'] ++ rest) [] := reads_line h rfl
  have hend : Strips ['\n'] ['\n'] := .singleton rfl
  rw [append_assoc _ ['\n'], hread.reduceFrom (by simp), hend]
  simp [Nat.add_assoc]

/-- Of a block comment, nothing stays. -/
theorem Strips.block (h : ¬ "*/".toList <:+: body) :
    Strips ("/*".toList ++ body ++ "*/".toList) [] :=
  fun before offset rest => (reads_block h rest).reduceFrom (by simp) before offset

/-- A blank of JSON begins neither a string nor a comment. -/
theorem isOpening_of_isSpace (h : isSpace c = true) : isOpening c = false := by
  simp only [isSpace, Bool.or_eq_true, beq_iff_eq] at h
  rcases h with ((rfl | rfl) | rfl) | rfl <;> rfl

/-- What a text is without comments. -/
def Extent.uncommented (e : Extent) : Extent :=
  { e with comments := false }

/-- What stands between tokens is stripped of its comments. -/
theorem Gap.strips (e : Extent) (gap : Gap) :
    Strips (Gap.text e gap) (Gap.text e.uncommented gap) := by
  have hfiller (filler : Filler) : Strips (filler.text e) (filler.text e.uncommented) := by
    obtain ⟨comments, commas⟩ := e
    cases filler with
    | blank c h => exact .singleton (isOpening_of_isSpace h)
    | line body h =>
      cases comments with
      | false => exact .singleton rfl
      | true => exact .line h
    | block body h =>
      cases comments with
      | false => exact .nil
      | true => exact .block h
  induction gap with
  | nil => exact .nil
  | cons filler gap ih => exact (hfiller filler).append ih

/-- A key keeps its text, comments around its colon apart. -/
theorem Label.strips (e : Extent) (label : Label kind) :
    Strips (label.text e) (label.text e.uncommented) := by
  cases label with
  | item => exact .nil
  | key chars before after =>
    have hcolon : Strips [':'] [':'] := .singleton rfl
    exact (Strips.quoted chars).append
      ((Gap.strips e before).append (hcolon.append (Gap.strips e after)))

/-- A final comma stays, comments after it apart. -/
theorem commaText_strips (e : Extent) (comma : Option Gap) :
    Strips (commaText e comma) (commaText e.uncommented comma) := by
  cases comma with
  | none => exact .nil
  | some gap =>
    refine Strips.append (.plain ?_) (Gap.strips e gap)
    cases e.commas with
    | false => exact forall_mem_nil _
    | true => exact forall_mem_singleton.mpr rfl

/-- A number consists of digits and a few signs and letters. -/
theorem NumberText.mem_text {n : NumberText} (h : c ∈ n.text) :
    c.isDigit = true ∨ c ∈ ['-', '+', '.', 'e', 'E'] := by
  simp only [NumberText.text, NumberText.fractionText, NumberText.exponentText, mem_append] at h
  rcases h with h | h | h | h
  · cases hnegative : n.negative <;> simp [hnegative] at h
    simp [h]
  · exact .inl (isDigit_of_mem_digits h)
  · cases hfraction : n.fraction with
    | none => simp [hfraction] at h
    | some digits =>
      simp only [hfraction, Option.map_some, Option.getD_some, mem_cons] at h
      rcases h with rfl | h
      · simp
      · exact .inl (digits.isDigit_of_mem c h)
  · cases hexponent : n.exponent with
    | none => simp [hexponent] at h
    | some x =>
      have hmark := x.mark_eq
      simp only [Bool.or_eq_true, beq_iff_eq] at hmark
      simp only [hexponent, Option.map_some, Option.getD_some, ExponentText.text, mem_cons,
        mem_append] at h
      rcases h with rfl | h | h
      · rcases hmark with hmark | hmark <;> simp [hmark]
      · obtain ⟨negative, -, rfl⟩ := Option.map_eq_some_iff.mp (Option.mem_toList.mp h)
        cases negative <;> simp
      · exact .inl (x.digits.isDigit_of_mem c h)

/-- Characters that open a string or comment, or separate. -/
def isMark (c : Char) : Bool :=
  isOpening c || c == ','

/-- Scalars hold no marks. -/
theorem Scalar.isMark_of_mem {s : Scalar} (h : c ∈ s.text) : isMark c = false := by
  cases s with
  | null =>
    simp [Scalar.text] at h
    rcases h with rfl | rfl | rfl <;> rfl
  | bool b =>
    cases b <;> simp [Scalar.text] at h
    · rcases h with rfl | rfl | rfl | rfl | rfl <;> rfl
    · rcases h with rfl | rfl | rfl | rfl <;> rfl
  | number n =>
    rcases NumberText.mem_text h with hc | hc
    · have hne {d : Char} (hd : d.isDigit = false) : c ≠ d := ne_of_isDigit hc hd
      simp [isMark, isOpening, hne]
    · simp only [mem_cons, not_mem_nil, or_false] at hc
      rcases hc with rfl | rfl | rfl | rfl | rfl <;> rfl

/-- What is no mark opens neither a string nor a comment. -/
theorem isOpening_of_isMark (h : isMark c = false) : isOpening c = false :=
  (Bool.or_eq_false_iff.mp h).1

/-- Opening brackets are no marks. -/
theorem Container.isMark_opening (kind : Container) : isMark kind.opening = false := by
  cases kind <;> rfl

/-- Closing brackets are no marks. -/
theorem Container.isMark_closing (kind : Container) : isMark kind.closing = false := by
  cases kind <;> rfl

mutual

/-- A document is stripped of its comments and of nothing else. -/
theorem Document.strips (e : Extent) : (d : Document) → Strips (d.text e) (d.text e.uncommented)
  | .scalar _ => .plain fun _ hc => isOpening_of_isMark (Scalar.isMark_of_mem hc)
  | .string chars => .quoted chars
  | .empty kind gap =>
    (Strips.singleton (isOpening_of_isMark kind.isMark_opening)).append
      ((Gap.strips e gap).append (.singleton (isOpening_of_isMark kind.isMark_closing)))
  | .filled kind gap members =>
    (Strips.singleton (isOpening_of_isMark kind.isMark_opening)).append
      ((Gap.strips e gap).append (members.strips e))

/-- Members lose their comments. -/
theorem Members.strips (e : Extent) : {kind : Container} → (members : Members kind) →
    Strips (members.text e) (members.text e.uncommented)
  | kind, .last label value gap comma =>
    (Label.strips e label).append ((value.strips e).append ((Gap.strips e gap).append
      ((commaText_strips e comma).append (.singleton (isOpening_of_isMark kind.isMark_closing)))))
  | _, .next label value before after more =>
    (Label.strips e label).append ((value.strips e).append ((Gap.strips e before).append
      ((Strips.singleton (c := ',') rfl).append ((Gap.strips e after).append (more.strips e)))))

end

/-- A document with gaps, and perhaps a final line comment. -/
structure Rendering where
  before : Gap
  document : Document
  after : Gap
  ending : Option { body : List Char // '\n' ∉ body }

/-- A line comment without a break. -/
def Rendering.endingText (e : Extent) (r : Rendering) : List Char :=
  r.ending.elim [] fun body => if e.comments then "//".toList ++ body.1 else []

/-- The written text, gaps included. -/
def Rendering.text (e : Extent) (r : Rendering) : List Char :=
  Gap.text e r.before ++ (r.document.text e ++ (Gap.text e r.after ++ r.endingText e))

/-- Of a line comment at the end, nothing stays. -/
theorem reduceFrom_endingText (e : Extent) (r : Rendering) (before : List Char) (offset : Nat) :
    stringOrComment.reduceFrom before offset (r.endingText e) = [] := by
  unfold Rendering.endingText
  cases r.ending with
  | none => rfl
  | some body =>
    cases hcomments : e.comments with
    | false => rfl
    | true =>
      have hread : stringOrComment.Reads ("//".toList ++ body.1) [] [] := reads_line body.2 rfl
      have hnone := hread.reduceFrom (by simp) before offset
      rw [append_nil] at hnone
      exact hnone

/-- A document loses its comments. -/
theorem stripComments_text (e : Extent) (r : Rendering) :
    stripComments (r.text e) = r.text e.uncommented := by
  have hbody : Strips (Gap.text e r.before ++ (r.document.text e ++ Gap.text e r.after))
      (Gap.text e.uncommented r.before ++
        (r.document.text e.uncommented ++ Gap.text e.uncommented r.after)) :=
    (Gap.strips e r.before).append ((r.document.strips e).append (Gap.strips e r.after))
  have htext (e : Extent) : r.text e =
      Gap.text e r.before ++ (r.document.text e ++ Gap.text e r.after) ++ r.endingText e := by
    simp [Rendering.text]
  have hending : r.endingText e.uncommented = [] := by
    unfold Rendering.endingText
    cases r.ending <;> rfl
  rw [stripComments, replaceAll_group, htext, hbody, reduceFrom_endingText, htext, hending]

end Data.Json

end SiteAtlas
