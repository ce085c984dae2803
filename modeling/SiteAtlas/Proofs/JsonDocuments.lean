import SiteAtlas.Proofs.JsonTokens

/-!
# JSON documents

A document is a value as it is written, down to blanks, comments and final commas. From it come its
text, strict or not, and its value. The strict text is read as the value, unless a whole number has
too many digits or containers are nested beyond the room there is.
-/

namespace SiteAtlas.Data.Json

open List SiteAtlas.Number

/-- What can stand between two tokens. -/
inductive Filler where
  | blank (c : Char) (h : isSpace c = true)
  /-- A comment up to the end of its line. -/
  | line (body : List Char) (h : '\n' ∉ body)
  | block (body : List Char) (h : ¬ "*/".toList <:+: body)

/-- A blank as filler. -/
def Filler.space : Filler :=
  .blank ' ' rfl

/-- A line break as filler. -/
def Filler.lineBreak : Filler :=
  .blank '\n' rfl

/-- What a text has beyond strict JSON. -/
structure Extent where
  comments : Bool
  /-- Commas before closing brackets. -/
  commas : Bool

/-- A text as it is written. -/
def Extent.full : Extent :=
  ⟨true, true⟩

/-- A text that is strict JSON. -/
def Extent.strict : Extent :=
  ⟨false, false⟩

/-- The text of a filler; the end of a line stays. -/
def Filler.text (e : Extent) : Filler → List Char
  | .blank c _ => [c]
  | .line body _ => (if e.comments then "//".toList ++ body else []) ++ ['\n']
  | .block body _ => if e.comments then "/*".toList ++ body ++ "*/".toList else []

/-- What stands between two tokens. -/
abbrev Gap :=
  List Filler

/-- The text between two tokens. -/
def Gap.text (e : Extent) (gap : Gap) : List Char :=
  gap.flatMap (Filler.text e)

/-- The bracket that opens. -/
def Container.opening : Container → Char
  | .list => '['
  | .table => '\x7b'

/-- The bracket that closes. -/
def Container.closing : Container → Char
  | .list => ']'
  | .table => '\x7d'

/-- What stands before a member of a container. -/
inductive Label : Container → Type where
  | item : Label .list
  /-- A key, and what stands around the colon after it. -/
  | key (chars : List CharText) (before after : Gap) : Label .table

/-- Values that are neither strings nor containers. -/
inductive Scalar where
  | null
  | bool (b : Bool)
  | number (n : NumberText)

mutual

/-- A value as it is written. -/
inductive Document : Type where
  | scalar (s : Scalar)
  | string (chars : List CharText)
  | empty (kind : Container) (gap : Gap)
  | filled (kind : Container) (gap : Gap) (members : Members kind)

/-- The written members of a container, with its bracket. -/
inductive Members : Container → Type where
  /-- The last member, perhaps with a comma after it. -/
  | last {kind : Container} (label : Label kind) (value : Document) (gap : Gap)
      (comma : Option Gap) : Members kind
  /-- A member and the comma after it. -/
  | next {kind : Container} (label : Label kind) (value : Document) (before after : Gap)
      (more : Members kind) : Members kind

end

variable {kind : Container}

/-- The text of what stands before a member. -/
def Label.text (e : Extent) : Label kind → List Char
  | .item => []
  | .key chars before after => quoted chars ++ (Gap.text e before ++ ':' :: Gap.text e after)

/-- A scalar as it is written. -/
def Scalar.text : Scalar → List Char
  | .null => "null".toList
  | .bool b => (if b then "true" else "false").toList
  | .number n => n.text

/-- The text of a final comma, and of what follows it. -/
def commaText (e : Extent) : Option Gap → List Char
  | none => []
  | some gap => (if e.commas then [','] else []) ++ Gap.text e gap

mutual

/-- A document as it is written. -/
def Document.text (e : Extent) : Document → List Char
  | .scalar s => s.text
  | .string chars => quoted chars
  | .empty kind gap => kind.opening :: (Gap.text e gap ++ [kind.closing])
  | .filled kind gap members => kind.opening :: (Gap.text e gap ++ members.text e)

/-- Members as they are written. -/
def Members.text (e : Extent) : {kind : Container} → Members kind → List Char
  | kind, .last label value gap comma =>
    label.text e ++ (value.text e ++ (Gap.text e gap ++ (commaText e comma ++ [kind.closing])))
  | _, .next label value before after more =>
    label.text e ++ (value.text e ++
      (Gap.text e before ++ ',' :: (Gap.text e after ++ more.text e)))

end

/-- The value of a scalar. -/
def Scalar.value : Scalar → Value
  | .null => .null
  | .bool b => .bool b
  | .number n => n.value

/-- The key of an entry. -/
def Label.name [Host] : Label .table → String
  | .key chars _ _ => String.ofList (charsOf chars)

/-- Entries after members: a repeated key takes the later value. -/
def putMembers [Host] (entries : Keyed Value) (members : List (Label .table × Value)) :
    Keyed Value :=
  members.foldl (fun entries member => entries.put member.1.name member.2) entries

/-- A container of labelled values. -/
def Container.value [Host] : (kind : Container) → List (Label kind × Value) → Value
  | .list, members => .list (members.map (·.2))
  | .table, members => .table (putMembers [] members)

mutual

/-- The value of a document. -/
def Document.value [Host] : Document → Value
  | .scalar s => s.value
  | .string chars => .text (String.ofList (charsOf chars))
  | .empty kind _ => kind.value []
  | .filled kind _ members => kind.value members.values

/-- The labelled values of members. -/
def Members.values [Host] : {kind : Container} → Members kind → List (Label kind × Value)
  | _, .last label value _ _ => [(label, value.value)]
  | _, .next label value _ _ more => (label, value.value) :: more.values

end

/-- What keeps a scalar from being read. -/
def Scalar.check : Scalar → Except Fault Unit
  | .number n =>
    if n.isWhole && digitLimit < (Nat.toDigits 10 n.whole).length then .error .malformed else .ok ()
  | _ => .ok ()

mutual

/-- What keeps a document from being read, with some room. -/
def Document.check (room : Nat) : Document → Except Fault Unit
  | .scalar s => s.check
  | .string _ => .ok ()
  | .empty kind _ => (enter kind room).map fun _ => ()
  | .filled kind _ members => (enter kind room).bind fun room => members.check room

/-- The first fault among members. -/
def Members.check (room : Nat) : {kind : Container} → Members kind → Except Fault Unit
  | _, .last _ value _ _ => value.check room
  | _, .next _ value _ _ more => (value.check room).bind fun _ => more.check room

end

/-- A text begins with neither a blank nor a closing bracket. -/
def Starts (cs : List Char) : Prop :=
  ∃ c more, cs = c :: more ∧ Text.isBlank c = false ∧ c ≠ ']' ∧ c ≠ '\x7d'

/-- A text begins as its first part does. -/
theorem Starts.append {cs : List Char} (h : Starts cs) (rest : List Char) :
    Starts (cs ++ rest) := by
  obtain ⟨c, more, rfl, hc⟩ := h
  exact ⟨c, more ++ rest, rfl, hc⟩

/-- Digits are no blanks. -/
theorem isBlank_of_isDigit {c : Char} (h : c.isDigit = true) : Text.isBlank c = false := by
  have hcodes : ∀ n < 58, 48 ≤ n → Text.inRanges Text.blankRanges n = false := by decide
  simp only [Char.isDigit, Bool.and_eq_true, decide_eq_true_eq, ge_iff_le,
    UInt32.le_iff_toNat_le] at h
  exact hcodes c.toNat (Nat.lt_succ_of_le h.2) h.1

/-- A scalar begins with a letter, a digit or a sign. -/
theorem Scalar.starts_text (s : Scalar) : Starts s.text := by
  cases s with
  | null => exact ⟨_, _, rfl, by decide, by decide, by decide⟩
  | bool b => cases b <;> exact ⟨_, _, rfl, by decide, by decide, by decide⟩
  | number n =>
    obtain ⟨c, more, htext, rfl | hdigit⟩ := n.exists_text_eq
    · exact ⟨_, more, htext, by decide, by decide, by decide⟩
    · exact ⟨c, more, htext, isBlank_of_isDigit hdigit, ne_of_isDigit hdigit rfl,
        ne_of_isDigit hdigit rfl⟩

/-- The text of a string begins with a quote. -/
theorem starts_quoted (chars : List CharText) : Starts (quoted chars) :=
  ⟨_, _, rfl, by decide, by decide, by decide⟩

/-- A document begins a value. -/
theorem Document.starts_text (e : Extent) (d : Document) : Starts (d.text e) := by
  cases d with
  | scalar s => exact s.starts_text
  | string chars => exact starts_quoted chars
  | empty kind gap | filled kind gap members =>
    cases kind <;> exact ⟨_, _, rfl, by decide, by decide, by decide⟩

/-- The text of members begins with a key or a value. -/
theorem Members.starts_text (e : Extent) (members : Members kind) : Starts (members.text e) := by
  cases members with
  | last label value gap comma | next label value before after more =>
    cases label with
    | item => exact (value.starts_text e).append _
    | key chars before after => exact ((starts_quoted chars).append _).append _

/-- Spaces are blanks. -/
theorem isBlank_of_isSpace {c : Char} (h : isSpace c = true) : Text.isBlank c = true := by
  simp only [isSpace, Bool.or_eq_true, beq_iff_eq] at h
  rcases h with ((rfl | rfl) | rfl) | rfl <;> rfl

/-- Without comments, only blanks stand between tokens. -/
theorem isSpace_of_mem_gap {e : Extent} (he : e.comments = false) {gap : Gap} {c : Char}
    (h : c ∈ Gap.text e gap) : isSpace c = true := by
  obtain ⟨filler, -, hc⟩ := mem_flatMap.mp h
  cases filler with
  | blank b hb => rwa [mem_singleton.mp hc]
  | line body hbody =>
    simp only [Filler.text, he, Bool.false_eq_true, if_false, nil_append, mem_singleton] at hc
    rw [hc]
    rfl
  | block body hbody => simp [Filler.text, he] at hc

/-- What stands between tokens is skipped. -/
theorem skipSpace_gap (gap : Gap) (cs : List Char) :
    skipSpace (Gap.text .strict gap ++ cs) = skipSpace cs :=
  dropWhile_append_of_pos fun _ hc => isSpace_of_mem_gap rfl hc

/-- A character that is no blank is not skipped. -/
theorem skipSpace_cons {c : Char} (h : isSpace c = false) (cs : List Char) :
    skipSpace (c :: cs) = c :: cs :=
  dropWhile_cons_of_neg (by simp [h])

/-- A value has no space in front. -/
theorem Starts.skipSpace_eq {cs : List Char} (h : Starts cs) : skipSpace cs = cs := by
  obtain ⟨c, more, rfl, hblank, -⟩ := h
  refine skipSpace_cons (Bool.eq_false_iff.mpr fun hspace => ?_) more
  rw [isBlank_of_isSpace hspace] at hblank
  cases hblank

/-- What stands between tokens separates them. -/
theorem separated_gap (gap : Gap) {rest : List Char} (h : Separated rest) :
    Separated (Gap.text .strict gap ++ rest) := by
  intro c hc
  cases htext : Gap.text .strict gap with
  | nil =>
    rw [htext] at hc
    exact h c hc
  | cons b more =>
    rw [htext] at hc
    obtain rfl := Option.some.inj hc
    have hspace : isSpace b = true := isSpace_of_mem_gap rfl (htext ▸ mem_cons_self)
    simp only [isSpace, Bool.or_eq_true, beq_iff_eq] at hspace
    rcases hspace with ((rfl | rfl) | rfl) | rfl <;> simp [separators]

/-- A closing bracket ends a value. -/
theorem separated_closing (kind : Container) (rest : List Char) :
    Separated (kind.closing :: rest) := by
  intro c hc
  obtain rfl := Option.some.inj hc
  cases kind <;> simp [separators, Container.closing]

/-- Strict JSON has no comma after the last member. -/
theorem commaText_strict (comma : Option Gap) :
    commaText .strict comma = Gap.text .strict (comma.getD []) := by
  cases comma <;> rfl

/-- Reading from no string and no container on. -/
theorem readValue_scalar [Host] (fuel room : Nat) (c : Char) (cs : List Char) (hquote : c ≠ '"')
    (hlist : c ≠ '[') (htable : c ≠ '\x7b') :
    readValue (fuel + 1) room (c :: cs) = wellFormed (readScalar (c :: cs)) := by
  rw [readValue]
  · exact fun _ h => hquote (List.cons.inj h).1
  · exact fun _ h => hlist (List.cons.inj h).1
  · exact fun _ h => htable (List.cons.inj h).1

/-- A list reads its items. -/
theorem readValue_list [Host] (fuel room : Nat) {cs : List Char}
    (h : (skipSpace cs).head? ≠ some ']') :
    readValue (fuel + 1) room ('[' :: cs) = (enter .list room).bind fun room =>
        (readItems fuel room (skipSpace cs)).map (Prod.map Value.list id) := by
  rw [readValue]
  cases room with
  | zero => rfl
  | succ room =>
    simp only [enter, bind, Except.bind]
    split
    · next after hafter => exact absurd (hafter ▸ rfl) h
    · cases readItems fuel room (skipSpace cs) <;> rfl

/-- A table reads its entries. -/
theorem readValue_table [Host] (fuel room : Nat) {cs : List Char}
    (h : (skipSpace cs).head? ≠ some '\x7d') : readValue (fuel + 1) room ('\x7b' :: cs) =
      (enter .table room).bind fun room =>
        (readEntries fuel room [] (skipSpace cs)).map (Prod.map Value.table id) := by
  rw [readValue]
  cases room with
  | zero => rfl
  | succ room =>
    simp only [enter, bind, Except.bind]
    split
    · next after hafter => exact absurd (hafter ▸ rfl) h
    · cases readEntries fuel room [] (skipSpace cs) <;> rfl

/-- An empty container is read up to its bracket. -/
theorem readValue_empty [Host] (fuel room : Nat) (kind : Container) (gap : Gap) (rest : List Char) :
    readValue (fuel + 1) room (kind.opening :: (Gap.text .strict gap ++ kind.closing :: rest)) =
      (enter kind room).map fun _ => (kind.value [], rest) := by
  have hclosing : skipSpace (Gap.text .strict gap ++ kind.closing :: rest) =
      kind.closing :: rest := by
    rw [skipSpace_gap]
    cases kind <;> rfl
  cases kind <;> simp only [Container.opening, Container.closing] at hclosing ⊢ <;>
    rw [readValue, hclosing] <;> cases room <;> rfl

/-- A scalar is read to its end, unless too many digits. -/
theorem readValue_scalar_text [Host] (fuel room : Nat) (s : Scalar) {rest : List Char}
    (h : Separated rest) :
    readValue (fuel + 1) room (s.text ++ rest) = s.check.map fun _ => (s.value, rest) := by
  cases s with
  | null => rfl
  | bool b => cases b <;> rfl
  | number n =>
    obtain ⟨c, more, htext, hc⟩ := n.exists_text_eq
    have hne {d : Char} (hminus : '-' ≠ d) (hdigit : d.isDigit = false) : c ≠ d := by
      rcases hc with rfl | hc
      · exact hminus
      · exact ne_of_isDigit hc hdigit
    have hscalar : readValue (fuel + 1) room (n.text ++ rest) =
        wellFormed (readScalar (n.text ++ rest)) := by
      rw [htext]
      exact readValue_scalar fuel room c _ (hne (by decide) rfl) (hne (by decide) rfl)
        (hne (by decide) rfl)
    rw [Scalar.text, hscalar, readScalar_number, readNumber_text n h, Scalar.check]
    split <;> rfl

/-- A string is read as its text. -/
theorem readValue_quoted [Host] (fuel room : Nat) (chars : List CharText) (rest : List Char) :
    readValue (fuel + 1) room (quoted chars ++ rest) =
      .ok (.text (String.ofList (charsOf chars)), rest) := by
  have htext : quoted chars ++ rest = '"' :: (chars.flatMap CharText.text ++ '"' :: rest) := by
    simp [quoted]
  rw [htext, readValue, readString_text]
  rfl

section Steps

variable {fuel room : Nat} {cs tail more rest : List Char} {v : Value} {checked : Except Fault Unit}

/-- The last item is read. -/
theorem readItems_last [Host] (hvalue : readValue fuel room cs = checked.map fun _ => (v, tail))
    (htail : skipSpace tail = ']' :: rest) :
    readItems (fuel + 1) room cs = checked.map fun _ => ([v], rest) := by
  rw [readItems, hvalue]
  cases checked with
  | error fault => rfl
  | ok _ =>
    simp only [Except.map, bind, Except.bind, htail]
    rfl

/-- An item is read before others. -/
theorem readItems_next [Host] (hvalue : readValue fuel room cs = checked.map fun _ => (v, tail))
    (htail : skipSpace tail = ',' :: more) : readItems (fuel + 1) room cs = checked.bind fun _ =>
      (readItems fuel room (skipSpace more)).map (Prod.map (v :: ·) id) := by
  rw [readItems, hvalue]
  cases checked with
  | error fault => rfl
  | ok _ =>
    simp only [Except.map, bind, Except.bind, htail]
    cases readItems fuel room (skipSpace more) <;> rfl

/-- A key is read with the colon after it. -/
theorem readString_label [Host] (label : Label .table) (hcs : Starts cs) :
    ∃ inside key colon value, label.text .strict ++ cs = '"' :: inside ∧
      readString inside = some (key, colon) ∧ String.ofList key = label.name ∧
      skipSpace colon = ':' :: value ∧ skipSpace value = cs := by
  cases label with
  | key chars before after =>
    refine ⟨_, _, Gap.text .strict before ++ ':' :: (Gap.text .strict after ++ cs),
      Gap.text .strict after ++ cs, ?_, readString_text chars _, rfl, ?_, ?_⟩
    · simp [Label.text, quoted]
    · rw [skipSpace_gap, skipSpace_cons rfl]
    · rw [skipSpace_gap, hcs.skipSpace_eq]

/-- The last entry is read. -/
theorem readEntries_last [Host] (label : Label .table) (entries : Keyed Value) (hcs : Starts cs)
    (hvalue : readValue fuel room cs = checked.map fun _ => (v, tail))
    (htail : skipSpace tail = '\x7d' :: rest) :
    readEntries (fuel + 1) room entries (label.text .strict ++ cs) =
      checked.map fun _ => (entries.put label.name v, rest) := by
  obtain ⟨inside, key, colon, value, htext, hinside, hkey, hcolon, hskip⟩ :=
    readString_label label hcs
  rw [htext, readEntries, hinside]
  simp only [wellFormed, bind, Except.bind, hkey, hcolon, hskip, hvalue]
  cases checked with
  | error fault => rfl
  | ok _ =>
    simp only [Except.map, htail]
    rfl

/-- An entry is read before others. -/
theorem readEntries_next [Host] (label : Label .table) (entries : Keyed Value) (hcs : Starts cs)
    (hvalue : readValue fuel room cs = checked.map fun _ => (v, tail))
    (htail : skipSpace tail = ',' :: more) :
    readEntries (fuel + 1) room entries (label.text .strict ++ cs) =
      checked.bind fun _ => readEntries fuel room (entries.put label.name v) (skipSpace more) := by
  obtain ⟨inside, key, colon, value, htext, hinside, hkey, hcolon, hskip⟩ :=
    readString_label label hcs
  rw [htext, readEntries, hinside]
  simp only [wellFormed, bind, Except.bind, hkey, hcolon, hskip, hvalue]
  cases checked with
  | error fault => rfl
  | ok _ => simp only [Except.map, htail]

end Steps

/-- With fuel, members are read with the bracket. -/
def Members.ReadsBack [Host] : {kind : Container} → Members kind → Prop
  | .list, members => ∀ fuel room rest, 2 * (members.text .strict).length ≤ fuel →
      readItems fuel room (members.text .strict ++ rest) =
        (members.check room).map fun _ => (members.values.map (·.2), rest)
  | .table, members => ∀ fuel room entries rest, 2 * (members.text .strict).length ≤ fuel →
      readEntries fuel room entries (members.text .strict ++ rest) =
        (members.check room).map fun _ => (putMembers entries members.values, rest)

/-- With fuel, a document is read as far as it can be. -/
def Document.ReadsBack [Host] (d : Document) : Prop :=
  ∀ fuel room rest, Separated rest → 2 * (d.text .strict).length ≤ fuel →
    readValue fuel room (d.text .strict ++ rest) = (d.check room).map fun _ => (d.value, rest)

/-- After the last value comes the closing bracket. -/
theorem skipSpace_last (kind : Container) (gap : Gap) (comma : Option Gap) (rest : List Char) :
    skipSpace (Gap.text .strict gap ++ (commaText .strict comma ++ kind.closing :: rest)) =
      kind.closing :: rest := by
  rw [skipSpace_gap, commaText_strict, skipSpace_gap]
  cases kind <;> rfl

/-- The last member is read with the closing bracket. -/
theorem Document.ReadsBack.last [Host] {value : Document} (h : value.ReadsBack) (label : Label kind)
    (gap : Gap) (comma : Option Gap) : (Members.last label value gap comma).ReadsBack := by
  have hseparated (rest : List Char) : Separated (Gap.text .strict gap ++
      (commaText .strict comma ++ kind.closing :: rest)) := by
    rw [commaText_strict]
    exact separated_gap _ (separated_gap _ (separated_closing kind rest))
  have htext (rest : List Char) : (Members.last label value gap comma).text .strict ++ rest =
      label.text .strict ++ (value.text .strict ++ (Gap.text .strict gap ++
        (commaText .strict comma ++ kind.closing :: rest))) := by
    simp [Members.text]
  have hlength := congrArg List.length (htext [])
  simp only [length_append, length_cons, length_nil] at hlength
  cases kind with
  | list =>
    intro fuel room rest hfuel
    obtain ⟨fuel, rfl⟩ : ∃ more, fuel = more + 1 := ⟨fuel - 1, by omega⟩
    cases label
    rw [htext, Members.check]
    exact readItems_last (h fuel room _ (hseparated rest) (by omega)) (skipSpace_last .list _ _ _)
  | table =>
    intro fuel room entries rest hfuel
    obtain ⟨fuel, rfl⟩ : ∃ more, fuel = more + 1 := ⟨fuel - 1, by omega⟩
    rw [htext, Members.check]
    exact readEntries_last label entries ((value.starts_text _).append _)
      (h fuel room _ (hseparated rest) (by omega)) (skipSpace_last .table _ _ _)

/-- A member of a container is read with the members after it. -/
theorem Document.ReadsBack.next [Host] {value : Document} (h : value.ReadsBack) (label : Label kind)
    (before after : Gap) {more : Members kind} (hmore : more.ReadsBack) :
    (Members.next label value before after more).ReadsBack := by
  have hseparated (rest : List Char) : Separated (Gap.text .strict before ++ ',' :: rest) :=
    separated_gap _ fun c hc => by simp [← Option.some.inj hc, separators]
  have hcomma (rest : List Char) : skipSpace (Gap.text .strict before ++ ',' :: rest) =
      ',' :: rest := by
    rw [skipSpace_gap, skipSpace_cons rfl]
  have hskip (rest : List Char) :
      skipSpace (Gap.text .strict after ++ (more.text .strict ++ rest)) =
        more.text .strict ++ rest := by
    rw [skipSpace_gap, ((more.starts_text _).append rest).skipSpace_eq]
  have htext (rest : List Char) :
      (Members.next label value before after more).text .strict ++ rest =
        label.text .strict ++ (value.text .strict ++ (Gap.text .strict before ++
          ',' :: (Gap.text .strict after ++ (more.text .strict ++ rest)))) := by
    simp [Members.text]
  have hlength := congrArg List.length (htext [])
  simp only [length_append, length_cons, length_nil] at hlength
  cases kind with
  | list =>
    intro fuel room rest hfuel
    obtain ⟨fuel, rfl⟩ : ∃ more, fuel = more + 1 := ⟨fuel - 1, by omega⟩
    cases label
    have hitems := hmore fuel room rest (by omega)
    rw [htext, Members.check]
    refine (readItems_next (h fuel room _ (hseparated _) (by omega)) (hcomma _)).trans ?_
    rw [hskip, hitems]
    cases value.check room with
    | error fault => rfl
    | ok _ => cases more.check room <;> rfl
  | table =>
    intro fuel room entries rest hfuel
    obtain ⟨fuel, rfl⟩ : ∃ more, fuel = more + 1 := ⟨fuel - 1, by omega⟩
    have hentries := hmore fuel room (entries.put label.name value.value) rest (by omega)
    rw [htext, Members.check]
    refine (readEntries_next label entries ((value.starts_text _).append _)
      (h fuel room _ (hseparated _) (by omega)) (hcomma _)).trans ?_
    rw [hskip, hentries]
    cases value.check room with
    | error fault => rfl
    | ok _ => cases more.check room <;> rfl

/-- A filled container reads back. -/
theorem Members.ReadsBack.filled [Host] {members : Members kind} (h : members.ReadsBack)
    (gap : Gap) : (Document.filled kind gap members).ReadsBack := by
  intro fuel room rest _ hfuel
  have htext : (Document.filled kind gap members).text .strict ++ rest =
      kind.opening :: (Gap.text .strict gap ++ (members.text .strict ++ rest)) := by
    simp [Document.text]
  have hstarts : Starts (members.text .strict ++ rest) := (members.starts_text _).append rest
  have hskip : skipSpace (Gap.text .strict gap ++ (members.text .strict ++ rest)) =
      members.text .strict ++ rest := by
    rw [skipSpace_gap, hstarts.skipSpace_eq]
  obtain ⟨c, more, hcs, -, hbracket, hbrace⟩ := hstarts
  have hhead : (skipSpace (Gap.text .strict gap ++ (members.text .strict ++ rest))).head? =
      some c := by
    rw [hskip, hcs, head?_cons]
  rw [Document.text, length_cons, length_append] at hfuel
  obtain ⟨fuel, rfl⟩ : ∃ more, fuel = more + 1 := ⟨fuel - 1, by omega⟩
  cases kind with
  | list =>
    rw [htext, Container.opening, readValue_list fuel room (by simpa [hhead] using hbracket),
      hskip, Document.check]
    cases room with
    | zero => rfl
    | succ room =>
      simp only [enter, Except.bind]
      rw [h fuel room rest (by omega)]
      cases members.check room <;> rfl
  | table =>
    rw [htext, Container.opening, readValue_table fuel room (by simpa [hhead] using hbrace),
      hskip, Document.check]
    cases room with
    | zero => rfl
    | succ room =>
      simp only [enter, Except.bind]
      rw [h fuel room [] rest (by omega)]
      cases members.check room <;> rfl

/-- Some fuel is needed for a text that is not empty. -/
theorem exists_fuel {cs : List Char} {fuel : Nat} (h : Starts cs) (hfuel : 2 * cs.length ≤ fuel) :
    ∃ more, fuel = more + 1 := by
  obtain ⟨c, others, rfl, -⟩ := h
  rw [length_cons] at hfuel
  exact ⟨fuel - 1, by omega⟩

mutual

/-- Every document reads back. -/
theorem Document.readsBack [Host] : (d : Document) → d.ReadsBack
  | .scalar s => fun fuel room rest hrest hfuel => by
    obtain ⟨fuel, rfl⟩ := exists_fuel s.starts_text hfuel
    exact readValue_scalar_text fuel room s hrest
  | .string chars => fun fuel room rest _ hfuel => by
    obtain ⟨fuel, rfl⟩ := exists_fuel (starts_quoted chars) hfuel
    exact readValue_quoted fuel room chars rest
  | .empty kind gap => fun fuel room rest _ hfuel => by
    obtain ⟨fuel, rfl⟩ := exists_fuel (Document.starts_text _ (.empty kind gap)) hfuel
    have htext : (Document.empty kind gap).text .strict ++ rest =
        kind.opening :: (Gap.text .strict gap ++ kind.closing :: rest) := by
      simp [Document.text]
    rw [htext, readValue_empty, Document.check]
    cases enter kind room <;> rfl
  | .filled _ gap members => members.readsBack.filled gap

/-- Members are read with the bracket as far as they can be. -/
theorem Members.readsBack [Host] : {kind : Container} → (members : Members kind) → members.ReadsBack
  | _, .last label value gap comma => value.readsBack.last label gap comma
  | _, .next label value before after more =>
    value.readsBack.next label before after more.readsBack

end

/-- The strict text of a document is read as its value, gaps around it included, unless nested too
deeply or with a number of too many digits. -/
theorem Document.read_text [Host] (d : Document) (room : Nat) (before after : Gap) :
    read room (Gap.text .strict before ++ (d.text .strict ++ Gap.text .strict after)) =
      (d.check room).map fun _ => d.value := by
  have hend : Separated (Gap.text .strict after ++ []) :=
    separated_gap after fun c hc => by cases hc
  rw [append_nil] at hend
  have hlast : skipSpace (Gap.text .strict after ++ []) = [] := skipSpace_gap after []
  rw [append_nil] at hlast
  have hstarts : Starts (d.text .strict ++ Gap.text .strict after) := (d.starts_text _).append _
  rw [read, skipSpace_gap, hstarts.skipSpace_eq, d.readsBack _ _ _ hend]
  · cases d.check room with
    | error fault => rfl
    | ok _ =>
      simp only [Except.map, bind, Except.bind, hlast]
      rfl
  · simp only [length_append]
    omega

end SiteAtlas.Data.Json
