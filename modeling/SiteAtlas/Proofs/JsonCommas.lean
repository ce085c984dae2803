import SiteAtlas.Proofs.JsonComments

/-!
# Commas that are stripped from JSON texts

Commas before closing brackets are stripped without regard to strings. Strict JSON loses nothing
else. If no string holds such a comma, the stripped text of a document is read as its value.
-/

namespace SiteAtlas.Data.Json

open List Pattern
open SiteAtlas.Number (digitLimit)

variable {c : Char} {cs : List Char} {chars : List CharText}

variable {kind : Container}

/-- Whether a character is a closing bracket. -/
def isClosing (c : Char) : Bool :=
  "\x7d]".toList.contains c

/-- Whether a closing bracket follows, perhaps after blanks. -/
def closes (cs : List Char) : Bool :=
  headIs isClosing (cs.dropWhile Text.isBlank)

/-- A text without the commas before closing brackets. -/
def dropCommas : List Char → List Char
  | [] => []
  | c :: rest => if c == ',' && closes rest then dropCommas rest else c :: dropCommas rest

/-- Whether a text has a comma before a closing bracket. -/
def hasTrailingComma : List Char → Bool
  | [] => false
  | c :: rest => (c == ',' && closes rest) || hasTrailingComma rest

/-- A closing bracket is neither a blank nor a comma. -/
theorem ne_of_isClosing (h : isClosing c = true) : Text.isBlank c = false ∧ c ≠ ',' := by
  simp only [isClosing, contains_iff_mem] at h
  simp at h
  rcases h with rfl | rfl <;> exact ⟨by decide, by decide⟩

/-- Blanks are no commas. -/
theorem comma_not_mem_blanks {gap : List Char} (h : ∀ c ∈ gap, Text.isBlank c = true) : ',' ∉ gap :=
  fun hmem => absurd (h ',' hmem) (by decide)

/-- A character that is no comma stays. -/
theorem dropCommas_cons (h : c ≠ ',') (rest : List Char) :
    dropCommas (c :: rest) = c :: dropCommas rest := by
  rw [dropCommas, beq_eq_false_iff_ne.mpr h, Bool.false_and, if_neg (by simp)]

/-- A text without commas stays. -/
theorem dropCommas_append (h : ',' ∉ cs) (rest : List Char) :
    dropCommas (cs ++ rest) = cs ++ dropCommas rest := by
  induction cs with
  | nil => rfl
  | cons c cs ih =>
    rw [cons_append, dropCommas_cons fun heq => h (heq ▸ mem_cons_self),
      ih fun hmem => h (mem_cons_of_mem c hmem), cons_append]

/-- Blanks make no difference to what follows them. -/
theorem closes_append {gap : List Char} (h : ∀ c ∈ gap, Text.isBlank c = true) (rest : List Char) :
    closes (gap ++ rest) = closes rest := by
  rw [closes, dropWhile_append_of_pos h, closes]

/-- A closing bracket stands after blanks. -/
theorem exists_of_closes (h : closes cs = true) :
    ∃ gap bracket rest, cs = gap ++ bracket :: rest ∧ (∀ c ∈ gap, Text.isBlank c = true) ∧
      isClosing bracket = true := by
  cases hrest : cs.dropWhile Text.isBlank with
  | nil => simp [closes, hrest, headIs] at h
  | cons bracket rest =>
    refine ⟨cs.takeWhile Text.isBlank, bracket, rest, ?_, fun c hc => ?_, ?_⟩
    · rw [← hrest, takeWhile_append_dropWhile]
    · exact all_eq_true.mp all_takeWhile c hc
    · simpa [closes, hrest, headIs] using h

/-- A final comma is read with its bracket. -/
theorem reads_trailingComma {gap : List Char} {bracket : Char}
    (hgap : ∀ c ∈ gap, Text.isBlank c = true) (hbracket : isClosing bracket = true)
    (rest : List Char) :
    trailingComma.Reads (',' :: (gap ++ [bracket])) rest [(1, gap ++ [bracket])] := by
  have hblanks : blanks.Reads gap ([bracket] ++ rest) [] :=
    reads_many hgap (ne_of_isClosing hbracket).1
  exact (reads_char ',' _).seq ((hblanks.seq (reads_one hbracket rest)).capture 1)

/-- A comma before anything else is not read. -/
theorem failsAt_trailingComma {rest : List Char} (h : (c == ',' && closes rest) = false) :
    trailingComma.FailsAt (c :: rest) := by
  refine failsAt_char_append fun more heq => ?_
  refine failsAt_of_spells fun spelled others hspells htext => ?_
  obtain ⟨rfl, rfl⟩ := List.cons.inj heq
  obtain ⟨gap, last, rfl, hgap, bracket, hbracket, rfl⟩ := hspells
  obtain ⟨-, hgap⟩ := spells_loop_one.mp hgap
  have hbracket : isClosing bracket = true := hbracket
  rw [htext, append_assoc, closes_append hgap] at h
  simp [closes, headIs, (ne_of_isClosing hbracket).1, hbracket] at h

/-- Commas before brackets are dropped from any position on. -/
theorem reduceFrom_trailingComma (n : Nat) (cs before : List Char) (offset : Nat)
    (h : cs.length ≤ n) : trailingComma.reduceFrom before offset cs = dropCommas cs := by
  -- A comma is read together with the bracket after it, so the induction is on the length.
  induction n generalizing cs before offset with
  | zero =>
    rw [length_eq_zero_iff.mp (Nat.le_zero.mp h)]
    rfl
  | succ n ih =>
    cases cs with
    | nil => rfl
    | cons c rest =>
      rw [length_cons] at h
      rw [dropCommas]
      cases hcomma : c == ',' && closes rest with
      | false =>
        rw [(failsAt_trailingComma hcomma).reduceFrom, ih _ _ _ (by omega)]
        rfl
      | true =>
        obtain ⟨hc, hcloses⟩ := Bool.and_eq_true_iff.mp hcomma
        obtain rfl := beq_iff_eq.mp hc
        obtain ⟨gap, bracket, more, rfl, hgap, hbracket⟩ := exists_of_closes hcloses
        rw [length_append, length_cons] at h
        have htext : ',' :: (gap ++ bracket :: more) = ',' :: (gap ++ [bracket]) ++ more := by simp
        rw [htext, (reads_trailingComma hgap hbracket more).reduceFrom (cons_ne_nil _ _),
          ih _ _ _ (by omega), if_pos rfl, dropCommas_append (comma_not_mem_blanks hgap),
          dropCommas_cons (ne_of_isClosing hbracket).2]
        simp

/-- Stripping commas drops the final ones. -/
theorem stripCommas_eq_dropCommas (cs : List Char) : stripCommas cs = dropCommas cs := by
  rw [stripCommas, replaceAll_group, reduceFrom_trailingComma cs.length cs [] 0 (Nat.le_refl _)]

/-- A text stays exactly if no comma is before a bracket. -/
theorem dropCommas_eq_self_iff : dropCommas cs = cs ↔ hasTrailingComma cs = false := by
  have hlength (cs : List Char) : (dropCommas cs).length ≤ cs.length := by
    induction cs with
    | nil => exact Nat.le_refl _
    | cons c rest ih =>
      rw [dropCommas, length_cons]
      split
      · omega
      · rw [length_cons]
        omega
  induction cs with
  | nil => exact ⟨fun _ => rfl, fun _ => rfl⟩
  | cons c rest ih =>
    rw [dropCommas, hasTrailingComma]
    cases hcomma : c == ',' && closes rest with
    | false => simpa using ih
    | true =>
      refine ⟨fun heq => ?_, fun hnone => by simp at hnone⟩
      have hshort := hlength rest
      rw [if_pos rfl] at heq
      rw [heq, length_cons] at hshort
      omega

/-- The string of a key. -/
def Label.literals : Label kind → List (List CharText)
  | .item => []
  | .key chars _ _ => [chars]

mutual

/-- The strings of a document, those of keys included. -/
def Document.literals : Document → List (List CharText)
  | .scalar _ => []
  | .string chars => [chars]
  | .empty _ _ => []
  | .filled _ _ members => members.literals

/-- The strings of members, those of keys included. -/
def Members.literals : {kind : Container} → Members kind → List (List CharText)
  | _, .last label value _ _ => label.literals ++ value.literals
  | _, .next label value _ _ more => label.literals ++ (value.literals ++ more.literals)

end

/-- No string has a comma before a closing bracket. -/
def Unbroken (literals : List (List CharText)) : Prop :=
  ∀ chars ∈ literals, hasTrailingComma (quoted chars) = false

/-- A part becomes another when commas are dropped. -/
def Drops (a b : List Char) : Prop :=
  ∀ rest, dropCommas (a ++ rest) = b ++ dropCommas rest

/-- Commas are dropped in one part after the other. -/
theorem Drops.append {a b c d : List Char} (hab : Drops a b) (hcd : Drops c d) :
    Drops (a ++ c) (b ++ d) := by
  intro rest
  rw [append_assoc, hab, hcd, append_assoc]

/-- A text without commas stays. -/
theorem Drops.plain (h : ',' ∉ cs) : Drops cs cs :=
  dropCommas_append h

/-- A character that is no mark stays. -/
theorem Drops.singleton (h : isMark c = false) : Drops [c] [c] := by
  refine .plain fun hmem => ?_
  rw [← mem_singleton.mp hmem] at h
  cases h

/-- What follows a blank, or a character that is none. -/
theorem closes_cons (c : Char) (cs : List Char) :
    closes (c :: cs) = if Text.isBlank c then closes cs else isClosing c := by
  rw [closes, dropWhile_cons]
  split <;> rfl

/-- A quote ends the search for a closing bracket. -/
theorem closes_append_quote (front rest : List Char) :
    closes (front ++ '"' :: rest) = closes (front ++ ['"']) := by
  induction front with
  | nil =>
    rw [nil_append, nil_append, closes_cons, closes_cons]
    rfl
  | cons c front ih => rw [cons_append, cons_append, closes_cons, closes_cons, ih]

/-- A string without a comma before a closing bracket stays. -/
theorem Drops.quoted {chars : List CharText} (h : hasTrailingComma (quoted chars) = false) :
    Drops (quoted chars) (quoted chars) := by
  intro rest
  have hfront (front : List Char) (h : hasTrailingComma (front ++ ['"']) = false) :
      dropCommas (front ++ '"' :: rest) = front ++ '"' :: dropCommas rest := by
    induction front with
    | nil => exact dropCommas_cons (by decide) rest
    | cons c front ih =>
      rw [cons_append, hasTrailingComma, Bool.or_eq_false_iff] at h
      rw [cons_append, dropCommas, closes_append_quote, h.1, if_neg (by simp), ih h.2]
      rfl
  have hstring := hfront ('"' :: chars.flatMap CharText.text) h
  simpa [Json.quoted] using hstring

/-- No closing bracket follows where a token starts. -/
theorem Starts.closes_eq (h : Starts cs) : closes cs = false := by
  obtain ⟨c, more, rfl, hblank, hbracket, hbrace⟩ := h
  rw [closes_cons, hblank]
  simp [isClosing, hbracket, hbrace]

/-- Without comments, only blanks stand between tokens. -/
theorem isBlank_of_mem_gap {gap : Gap} (h : c ∈ Gap.text .strict gap) : Text.isBlank c = true :=
  isBlank_of_isSpace (isSpace_of_mem_gap rfl h)

/-- What stands between tokens stays. -/
theorem Gap.drops (gap : Gap) : Drops (Gap.text .strict gap) (Gap.text .strict gap) :=
  .plain (comma_not_mem_blanks fun _ => isBlank_of_mem_gap)

/-- A comma stays where a token starts after it. -/
theorem Drops.comma (gap : Gap) {a b : List Char} (h : Drops a b) (hstarts : Starts a) :
    Drops (',' :: (Gap.text .strict gap ++ a)) (',' :: (Gap.text .strict gap ++ b)) := by
  intro rest
  have hcloses : closes (Gap.text .strict gap ++ a ++ rest) = false := by
    rw [append_assoc, closes_append fun _ => isBlank_of_mem_gap, (hstarts.append rest).closes_eq]
  rw [cons_append, dropCommas, hcloses, Bool.and_false, if_neg (by simp), (Gap.drops gap).append h]
  rfl

/-- A comma is dropped where a closing bracket stands after it. -/
theorem Drops.trailing (kind : Container) (gap : Gap) :
    Drops (',' :: (Gap.text .strict gap ++ [kind.closing]))
      (Gap.text .strict gap ++ [kind.closing]) := by
  intro rest
  have hcloses : closes (Gap.text .strict gap ++ [kind.closing] ++ rest) = true := by
    rw [append_assoc, closes_append fun _ => isBlank_of_mem_gap]
    cases kind <;> rfl
  rw [cons_append, dropCommas, hcloses, if_pos (by simp),
    (Gap.drops gap).append (.singleton kind.isMark_closing)]

/-- A key stays if its string does. -/
theorem Label.drops {label : Label kind} (h : Unbroken label.literals) :
    Drops (label.text .strict) (label.text .strict) := by
  cases label with
  | item => exact .plain not_mem_nil
  | key chars before after =>
    have hcolon : Drops [':'] [':'] := .singleton rfl
    exact (Drops.quoted (h chars mem_cons_self)).append
      ((Gap.drops before).append (hcolon.append (Gap.drops after)))

/-- A final comma is dropped. -/
theorem commaText_drops (commas : Bool) (kind : Container) (comma : Option Gap) :
    Drops (commaText ⟨false, commas⟩ comma ++ [kind.closing])
      (commaText .strict comma ++ [kind.closing]) := by
  have hclosing : Drops [kind.closing] [kind.closing] := .singleton kind.isMark_closing
  cases comma with
  | none => exact hclosing
  | some gap =>
    cases commas with
    | false => exact (Gap.drops gap).append hclosing
    | true => exact .trailing kind gap

mutual

/-- A document loses final commas and nothing else. -/
theorem Document.drops (commas : Bool) : (d : Document) → Unbroken d.literals →
    Drops (d.text ⟨false, commas⟩) (d.text .strict)
  | .scalar _, _ => .plain fun hmem => absurd (Scalar.isMark_of_mem hmem) (by decide)
  | .string chars, h => .quoted (h chars mem_cons_self)
  | .empty kind gap, _ =>
    (Drops.singleton kind.isMark_opening).append
      ((Gap.drops gap).append (.singleton kind.isMark_closing))
  | .filled kind gap members, h =>
    (Drops.singleton kind.isMark_opening).append ((Gap.drops gap).append (members.drops commas h))

/-- Members lose the final comma and nothing else. -/
theorem Members.drops (commas : Bool) : {kind : Container} → (members : Members kind) →
    Unbroken members.literals → Drops (members.text ⟨false, commas⟩) (members.text .strict)
  | kind, .last label value gap comma, h => by
    obtain ⟨hlabel, hvalue⟩ := forall_mem_append.mp h
    exact (Label.drops hlabel).append ((value.drops commas hvalue).append
      ((Gap.drops gap).append (commaText_drops commas kind comma)))
  | _, .next label value before after more, h => by
    obtain ⟨hlabel, hothers⟩ := forall_mem_append.mp h
    obtain ⟨hvalue, hmore⟩ := forall_mem_append.mp hothers
    exact (Label.drops hlabel).append ((value.drops commas hvalue).append
      ((Gap.drops before).append (.comma after (more.drops commas hmore) (more.starts_text _))))

end

/-- Without comments, nothing stands after the last gap. -/
theorem text_of_uncommented (commas : Bool) (r : Rendering) : r.text ⟨false, commas⟩ =
    Gap.text .strict r.before ++ (r.document.text ⟨false, commas⟩ ++ Gap.text .strict r.after) := by
  have hending : r.endingText ⟨false, commas⟩ = [] := by
    unfold Rendering.endingText
    cases r.ending <;> rfl
  rw [Rendering.text, hending, append_nil]
  rfl

/-- A text without comments loses final commas only. -/
theorem dropCommas_text (commas : Bool) (r : Rendering) (h : Unbroken r.document.literals) :
    dropCommas (r.text ⟨false, commas⟩) = r.text .strict := by
  have hdrops := ((Gap.drops r.before).append
    ((r.document.drops commas h).append (Gap.drops r.after))) []
  rw [append_nil] at hdrops
  rw [text_of_uncommented, hdrops, Extent.strict, text_of_uncommented, dropCommas, append_nil]
  rfl

/-- Stripping: comments, then commas. -/
theorem strip_text (e : Extent) (r : Rendering) :
    strip (r.text e) = dropCommas (r.text ⟨false, e.commas⟩) := by
  rw [strip, stripComments_text, stripCommas_eq_dropCommas]
  rfl

/-- A text with unbroken strings is stripped to strict JSON. -/
theorem Rendering.strip_full (r : Rendering) (h : Unbroken r.document.literals) :
    strip (r.text .full) = r.text .strict := by
  rw [strip_text]
  exact dropCommas_text _ r h

/-- Strict JSON is read as its value, limits apart. -/
theorem Rendering.read_text [Host] (r : Rendering) (room : Nat) : read room (r.text .strict) =
    (r.document.check room).map fun _ => r.document.value := by
  rw [Extent.strict, text_of_uncommented]
  exact r.document.read_text room r.before r.after

/-- A comma before a bracket is one in a longer text. -/
theorem hasTrailingComma_mono {a b : List Char} (hab : a <:+: b)
    (h : hasTrailingComma a = true) : hasTrailingComma b = true := by
  obtain ⟨front, back, rfl⟩ := hab
  have hcloses (cs : List Char) (h : closes cs = true) : closes (cs ++ back) = true := by
    obtain ⟨gap, bracket, rest, rfl, hgap, hbracket⟩ := exists_of_closes h
    rw [append_assoc, closes_append hgap, cons_append, closes_cons, (ne_of_isClosing hbracket).1]
    exact hbracket
  have hback : hasTrailingComma (a ++ back) = true := by
    induction a with
    | nil => cases h
    | cons c a ih =>
      rw [hasTrailingComma, Bool.or_eq_true, Bool.and_eq_true] at h
      rw [cons_append, hasTrailingComma, Bool.or_eq_true, Bool.and_eq_true]
      exact h.imp (fun hc => ⟨hc.1, hcloses a hc.2⟩) ih
  rw [append_assoc]
  induction front with
  | nil => exact hback
  | cons c front ih => rw [cons_append, hasTrailingComma, ih, Bool.or_true]

/-- The string of a key stands in its text. -/
theorem Label.quoted_within (e : Extent) {label : Label kind} (h : chars ∈ label.literals) :
    quoted chars <:+: label.text e := by
  cases label with
  | item => cases h
  | key others before after =>
    rw [mem_singleton.mp h]
    exact (prefix_append _ _).isInfix

mutual

/-- The strings of a document stand in its text. -/
theorem Document.quoted_within (e : Extent) : (d : Document) →
    chars ∈ d.literals → quoted chars <:+: d.text e
  | .scalar _, h => absurd h not_mem_nil
  | .string others, h => by
    rw [mem_singleton.mp h]
    exact infix_rfl
  | .empty _ _, h => absurd h not_mem_nil
  | .filled _ _ members, h => by
    have hmembers := members.quoted_within e h
    exact (hmembers.trans (suffix_append _ _).isInfix).trans (suffix_cons _ _).isInfix

/-- The strings of members stand in their text. -/
theorem Members.quoted_within (e : Extent) : {kind : Container} →
    (members : Members kind) → chars ∈ members.literals → quoted chars <:+: members.text e
  | _, .last label value _ _, h => by
    rcases mem_append.mp h with h | h
    · exact (Label.quoted_within e h).trans (prefix_append _ _).isInfix
    · exact ((value.quoted_within e h).trans (prefix_append _ _).isInfix).trans
        (suffix_append _ _).isInfix
  | _, .next label value before after more, h => by
    have hmore : more.text e <:+ value.text e ++ (Gap.text e before ++
        ',' :: (Gap.text e after ++ more.text e)) :=
      (((suffix_append _ _).trans (suffix_cons _ _)).trans
        (suffix_append _ _)).trans (suffix_append _ _)
    rcases mem_append.mp h with h | h
    · exact (Label.quoted_within e h).trans (prefix_append _ _).isInfix
    refine List.IsInfix.trans ?_ (suffix_append _ _).isInfix
    rcases mem_append.mp h with h | h
    · exact (value.quoted_within e h).trans (prefix_append _ _).isInfix
    · exact (more.quoted_within e h).trans hmore.isInfix

end

/-- Strict JSON stays exactly if no string has such a comma. -/
theorem dropCommas_strict_iff (r : Rendering) :
    dropCommas (r.text .strict) = r.text .strict ↔ Unbroken r.document.literals := by
  constructor
  · intro heq chars hchars
    rw [dropCommas_eq_self_iff] at heq
    have hwithin : quoted chars <:+: r.text .strict := by
      rw [Extent.strict, text_of_uncommented]
      exact ((r.document.quoted_within _ hchars).trans (prefix_append _ _).isInfix).trans
        (suffix_append _ _).isInfix
    cases hbroken : hasTrailingComma (quoted chars) with
    | false => rfl
    | true =>
      rw [hasTrailingComma_mono hwithin hbroken] at heq
      cases heq
  · exact dropCommas_text false r

/-- **Stripping strict JSON.**  No comment is found in strict JSON, whatever its strings hold. It
stays as it is if none of its strings has a comma before a closing bracket, and only then. -/
theorem strip_strict (r : Rendering) : stripComments (r.text .strict) = r.text .strict ∧
      (strip (r.text .strict) = r.text .strict ↔ Unbroken r.document.literals) := by
  rw [strip_text]
  exact ⟨stripComments_text .strict r, dropCommas_strict_iff r⟩

/-- A table with one string: a comma and a bracket. -/
def brokenString : Rendering where
  before := []
  document := .filled .table [] (.last (.key [.plain 'a' (by decide)] [] [.space])
    (.string [.plain ',' (by decide), .plain ']' (by decide)]) [] none)
  after := []
  ending := none

/-- The comma of the string is lost. -/
theorem strip_brokenString : brokenString.text .strict = "\x7b\"a\": \",]\"\x7d".toList ∧
      strip "\x7b\"a\": \",]\"\x7d".toList = "\x7b\"a\": \"]\"\x7d".toList := by
  have htext : brokenString.text .strict = "\x7b\"a\": \",]\"\x7d".toList := by decide
  refine ⟨htext, ?_⟩
  rw [← htext, strip_text]
  decide

/-- **Reading JSON with comments.**  Whatever blanks and comments stand between its tokens, with
final commas or without, a text is stripped and read as the value of its document, if no string has
a comma before a closing bracket; limits on nested containers and on digits apart. -/
theorem read_strip [Host] (room : Nat) (r : Rendering) (h : Unbroken r.document.literals) :
    read room (strip (r.text .full)) = (r.document.check room).map fun _ => r.document.value := by
  rw [r.strip_full h, r.read_text]

/-- Settings with comments, and strings that look so. -/
def commentedSettings : Rendering where
  before := [.line " \"paths\"".toList (by simp), .lineBreak]
  document := .filled .table [.space] (.next
    (.key [.plain '@' (by decide), .escaped '/' '/' rfl, .plain '*' (by decide)] [] [.space])
    (.string [.plain '/' (by decide), .plain '/' (by decide), .escaped '"' '"' rfl])
    [] [.block " two ".toList (by simp [infix_cons_iff])]
    (.last (.key [.plain 'n' (by decide)] [.space] [])
      (.filled .list [] (.next .item (.scalar (.number ⟨true, 10, none, none⟩)) [] [.space]
        (.last .item (.scalar (.bool true)) [] (some [.space]))))
      [.lineBreak] (some [.line [] (by simp)])))
  after := []
  ending := some ⟨"end".toList, by simp⟩

section

attribute [local instance] Host.usual

/-- The settings are read with their strings as they are. -/
theorem read_strip_commentedSettings : Unbroken commentedSettings.document.literals ∧
    String.ofList (commentedSettings.text .full) =
      "// \"paths\"\n\n\x7b \"@\\/*\": \"//\\\"\",/* two */\"n\" :[-10, true, ]\n,//\n\x7d//end" ∧
    read 2 (strip (commentedSettings.text .full)) =
      .ok (.table [("@/*", .text "//\""), ("n", .list [.int (-10), .bool true])]) := by
  have hall : commentedSettings.document.literals.all
      (fun chars => !hasTrailingComma (quoted chars)) = true := rfl
  have hunbroken : Unbroken commentedSettings.document.literals := fun chars hchars => by
    simpa using List.all_eq_true.mp hall chars hchars
  refine ⟨hunbroken, by decide, ?_⟩
  rw [read_strip 2 commentedSettings hunbroken]
  rfl

end

/-- Lists within lists, the innermost one empty. -/
def nestedLists : Nat → Document
  | 0 => .empty .list []
  | n + 1 => .filled .list [] (.last .item (nestedLists n) [] none)

/-- Nested lists are written in brackets. -/
theorem text_nestedLists (e : Extent) (n : Nat) : (nestedLists n).text e =
    List.replicate (n + 1) '[' ++ List.replicate (n + 1) ']' := by
  induction n with
  | zero => rfl
  | succ n ih =>
    have hopening : List.replicate (n + 1 + 1) '[' = '[' :: List.replicate (n + 1) '[' :=
      replicate_succ
    have hclosing : List.replicate (n + 1 + 1) ']' = List.replicate (n + 1) ']' ++ [']'] :=
      replicate_succ'
    rw [nestedLists, Document.text, Members.text, ih, hopening, hclosing]
    simp only [Gap.text, Label.text, commaText, Container.opening, Container.closing,
      flatMap_nil, nil_append, append_assoc, cons_append]

/-- Nested lists need the room of their depth. -/
theorem check_nestedLists (room n : Nat) : (nestedLists n).check room =
    if n < room then .ok () else .error (.tooDeep .list) := by
  induction n generalizing room with
  | zero => cases room <;> rfl
  | succ n ih =>
    cases room with
    | zero => rfl
    | succ room =>
      rw [nestedLists, Document.check]
      exact (ih room).trans (by simp)

/-- Nested lists hold no strings. -/
theorem literals_nestedLists (n : Nat) : (nestedLists n).literals = [] := by
  induction n with
  | zero => rfl
  | succ n ih => exact ih

/-- Nested lists are read as far as there is room. -/
theorem read_strip_text_nestedLists [Host] (room n : Nat) :
    read room (strip (List.replicate (n + 1) '[' ++ List.replicate (n + 1) ']')) =
      if n < room then .ok (nestedLists n).value else .error (.tooDeep .list) := by
  have htext : Rendering.text .full ⟨[], nestedLists n, [], none⟩ =
      List.replicate (n + 1) '[' ++ List.replicate (n + 1) ']' := by
    rw [Rendering.text, text_nestedLists]
    exact append_nil _
  have hunbroken : Unbroken (nestedLists n).literals := fun chars hchars => by
    rw [literals_nestedLists] at hchars
    cases hchars
  rw [← htext, Rendering.strip_full _ hunbroken, Rendering.read_text, check_nestedLists]
  split <;> rfl

/-- A whole number by itself. -/
def wholeNumber (n : Nat) : Rendering :=
  ⟨[], .scalar (.number ⟨false, n, none, none⟩), [], none⟩

/-- A whole number is its digits. -/
theorem text_wholeNumber (e : Extent) (n : Nat) : (wholeNumber n).text e = Nat.toDigits 10 n := by
  simp [wholeNumber, Rendering.text, Rendering.endingText, Document.text, Scalar.text,
    NumberText.text, NumberText.fractionText, NumberText.exponentText, Gap.text]

/-- A whole number is read unless it has too many digits. -/
theorem read_strip_text_wholeNumber [Host] (room n : Nat) : read room (strip (Nat.toDigits 10 n)) =
      if digitLimit < (Nat.toDigits 10 n).length then .error .malformed else .ok (.int n) := by
  have hunbroken : Unbroken (wholeNumber n).document.literals := fun chars hchars => by
    cases hchars
  rw [← text_wholeNumber .full, Rendering.strip_full _ hunbroken, Rendering.read_text,
    text_wholeNumber]
  simp only [wholeNumber, Document.check, Scalar.check, NumberText.isWhole, Option.isNone_none,
    Bool.and_self, Bool.true_and, decide_eq_true_eq]
  split <;> rfl

/-- Lists nested beyond the room and numbers with too many digits are refused, although strict JSON.
-/
theorem read_strip_refuses : (∀ host : Host, ∀ room,
      @read host room (strip (List.replicate (room + 1) '[' ++ List.replicate (room + 1) ']')) =
        .error (.tooDeep .list)) ∧ ∀ host : Host, ∀ room,
      @read host room (strip (Nat.toDigits 10 (10 ^ digitLimit))) = .error .malformed := by
  refine ⟨fun host room => ?_, fun host room => ?_⟩
  · rw [read_strip_text_nestedLists, if_neg (Nat.lt_irrefl room)]
  · rw [read_strip_text_wholeNumber, if_pos]
    rw [← Nat.not_le, Nat.length_toDigits_le_iff (by decide) (by decide)]
    exact Nat.lt_irrefl _

end SiteAtlas.Data.Json
