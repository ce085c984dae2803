import SiteAtlas.Data.Json.Writer
import SiteAtlas.Proofs.Identity
import SiteAtlas.Proofs.JsonDocuments
import SiteAtlas.Proofs.Surrogates

/-!
# Reading JSON texts back

What is written is the text of a document, and so is read back, given room for its nested
containers. One thing is lost: a first half right before a second one is read as the character that
they make up.
-/

namespace SiteAtlas.Data.Json

open List SiteAtlas.Number

/-- A digit is read back. -/
theorem hexValue?_digitChar : ∀ d < 16, hexValue? (Nat.digitChar d) = some d := by
  decide

/-- A code with its four digits, which are read as the code. -/
theorem exists_codeEscape_eq (n : Nat) (h : n < 0x10000) :
    ∃ a b c d, codeEscape n = ['\\', 'u', a, b, c, d] ∧ hex4? a b c d = some n := by
  refine ⟨_, _, _, _, rfl, ?_⟩
  have hdigit : ∀ m, hexValue? (Nat.digitChar (m % 16)) = some (m % 16) :=
    fun m => hexValue?_digitChar _ (Nat.mod_lt m (by decide))
  unfold hex4?
  rw [hdigit, hdigit, hdigit, hdigit]
  simp only [Option.bind_eq_bind, Option.bind_some, Option.pure_def, Option.some.injEq]
  omega

/-- A character beyond the basic plane is made up of its halves. -/
theorem joinHalves_toNat (c : Char) (h : 0x10000 ≤ c.toNat) :
    joinHalves (0xd800 + (c.toNat - 0x10000) / 0x400) (0xdc00 + (c.toNat - 0x10000) % 0x400) =
      c := by
  have hcode : 0x10000 + (0xd800 + (c.toNat - 0x10000) / 0x400 - 0xd800) * 0x400 +
      (0xdc00 + (c.toNat - 0x10000) % 0x400 - 0xdc00) = c.toNat := by
    omega
  rw [joinHalves, hcode, Char.ofNat_toNat]

/-- A character is written by a letter, itself, its code or two. -/
theorem writeChar_cases [Host] (c : Char) :
    (∃ letter, escapedChar? letter = some c ∧ letter.toNat < 128 ∧ writeChar c = ['\\', letter]) ∨
      (c ≠ '"' ∧ c ≠ '\\' ∧ 0x20 ≤ c.toNat ∧ c.toNat < 128 ∧ writeChar c = [c]) ∨
      (Text.codeOf c < 0x10000 ∧ writeChar c = codeEscape (Text.codeOf c)) ∨
      (0x10000 ≤ Text.codeOf c ∧
        writeChar c = codeEscape (0xd800 + (Text.codeOf c - 0x10000) / 0x400) ++
          codeEscape (0xdc00 + (Text.codeOf c - 0x10000) % 0x400)) := by
  by_cases hquote : c = '"'
  · exact .inl ⟨'"', by rw [hquote]; rfl, by decide, by rw [hquote]; rfl⟩
  by_cases hslash : c = '\\'
  · exact .inl ⟨'\\', by rw [hslash]; rfl, by decide, by rw [hslash]; rfl⟩
  by_cases hline : c = '\n'
  · exact .inl ⟨'n', by rw [hline]; rfl, by decide, by rw [hline]; rfl⟩
  by_cases hreturn : c = '\r'
  · exact .inl ⟨'r', by rw [hreturn]; rfl, by decide, by rw [hreturn]; rfl⟩
  by_cases htab : c = '\t'
  · exact .inl ⟨'t', by rw [htab]; rfl, by decide, by rw [htab]; rfl⟩
  by_cases hfeed : c = '\x0c'
  · exact .inl ⟨'f', by rw [hfeed]; rfl, by decide, by rw [hfeed]; rfl⟩
  by_cases hback : c = '\x08'
  · exact .inl ⟨'b', by rw [hback]; rfl, by decide, by rw [hback]; rfl⟩
  simp only [writeChar, beq_iff_eq, hquote, hslash, hline, hreturn, htab, hfeed, hback, ↓reduceIte]
  split
  · next hplain =>
    simp only [Bool.and_eq_true, decide_eq_true_eq] at hplain
    exact .inr (.inl ⟨hquote, hslash, hplain.1, by omega, rfl⟩)
  split
  · next hbasic => exact .inr (.inr (.inl ⟨hbasic, rfl⟩))
  · next hbeyond => exact .inr (.inr (.inr ⟨Nat.not_lt.mp hbeyond, rfl⟩))

/-- The first written character codes a second half. -/
def BeginsLow : List CharText → Prop
  | .code _ _ _ _ n _ :: _ => isLowHalf n = true
  | _ => False

/-- A code stands for its character if it is not joined. -/
theorem charsOf_code [Host] {a b c d : Char} {n : Nat} (hn : hex4? a b c d = some n)
    {more : List CharText} (h : ¬ (isHighHalf n = true ∧ BeginsLow more)) :
    charsOf (.code a b c d n hn :: more) = Text.charOf n :: charsOf more := by
  cases more with
  | nil => rfl
  | cons next more =>
    cases next with
    | plain | escaped => rfl
    | code => exact if_neg (by simpa [BeginsLow] using h)

/-- The written form of a character stands for it, unless it is a first half before the code of a
second one. It begins with such a code only if it is a second half. -/
theorem exists_writeChar [Host] (c : Char) :
    ∃ chars : List CharText, chars.flatMap CharText.text = writeChar c ∧
      (∀ more, BeginsLow (chars ++ more) → isLowHalf (Text.codeOf c) = true) ∧
      ∀ more, ¬ (isHighHalf (Text.codeOf c) = true ∧ BeginsLow more) →
        charsOf (chars ++ more) = c :: charsOf more := by
  rcases writeChar_cases c with ⟨letter, hletter, -, h⟩ | ⟨hquote, hslash, hplain, -, h⟩ |
      ⟨hbasic, h⟩ | ⟨hbeyond, h⟩
  · exact ⟨[.escaped letter c hletter], h.symm, fun more hlow => hlow.elim, fun more _ => rfl⟩
  · exact ⟨[.plain c ⟨hquote, hslash, hplain⟩], h.symm, fun more hlow => hlow.elim,
      fun more _ => rfl⟩
  · obtain ⟨x, y, z, w, hwritten, hread⟩ := exists_codeEscape_eq _ hbasic
    refine ⟨[.code x y z w _ hread], (h.trans hwritten).symm, fun more hlow => hlow,
      fun more hmore => ?_⟩
    refine (charsOf_code hread hmore).trans ?_
    rw [Text.charOf_codeOf]
  · have hcode := Text.codeOf_beyond hbeyond
    have hvalid : c.toNat < 0xd800 ∨ 0xdfff < c.toNat ∧ c.toNat < 0x110000 := c.valid
    rw [hcode] at h hbeyond
    obtain ⟨x, y, z, w, hhigh, hreadHigh⟩ :=
      exists_codeEscape_eq (0xd800 + (c.toNat - 0x10000) / 0x400) (by omega)
    obtain ⟨x', y', z', w', hlow, hreadLow⟩ :=
      exists_codeEscape_eq (0xdc00 + (c.toNat - 0x10000) % 0x400) (by omega)
    refine ⟨[.code x y z w _ hreadHigh, .code x' y' z' w' _ hreadLow], ?_, fun more hbegins => ?_,
      fun more _ => ?_⟩
    · rw [h, hhigh, hlow]
      rfl
    · have hhalf : isLowHalf (0xd800 + (c.toNat - 0x10000) / 0x400) = true := hbegins
      simp only [isLowHalf, Bool.and_eq_true, decide_eq_true_eq] at hhalf
      omega
    · refine (if_pos ?_).trans (congrArg (· :: charsOf more) (joinHalves_toNat c hbeyond))
      simp only [isHighHalf, isLowHalf, Bool.and_eq_true, decide_eq_true_eq]
      omega

/-- Whether no first half is right before a second one. -/
def unpaired [Host] : List Char → Bool
  | a :: b :: rest =>
    !(isHighHalf (Text.codeOf a) && isLowHalf (Text.codeOf b)) && unpaired (b :: rest)
  | _ => true

/-- Without its first character, a text has no pairs either. -/
theorem unpaired_of_cons [Host] {c : Char} {cs : List Char} (h : unpaired (c :: cs) = true) :
    unpaired cs = true := by
  cases cs with
  | nil => rfl
  | cons d cs => exact (Bool.and_eq_true_iff.mp h).2

/-- Characters without pairs of halves are read back. -/
theorem exists_writeChars [Host] (cs : List Char) (h : unpaired cs = true) :
    ∃ chars : List CharText, chars.flatMap CharText.text = cs.flatMap writeChar ∧
      charsOf chars = cs ∧
      (BeginsLow chars → ∃ c rest, cs = c :: rest ∧ isLowHalf (Text.codeOf c) = true) := by
  induction cs with
  | nil => exact ⟨[], rfl, rfl, fun hlow => hlow.elim⟩
  | cons c cs ih =>
    obtain ⟨first, hfirst, hlow, hjoin⟩ := exists_writeChar c
    obtain ⟨more, hmore, hchars, hbegins⟩ := ih (unpaired_of_cons h)
    have hapart : ¬ (isHighHalf (Text.codeOf c) = true ∧ BeginsLow more) := by
      rintro ⟨hhigh, hmoreLow⟩
      obtain ⟨d, rest, rfl, hd⟩ := hbegins hmoreLow
      simp [unpaired, hhigh, hd] at h
    refine ⟨first ++ more, ?_, by rw [hjoin more hapart, hchars], fun hall => ?_⟩
    · rw [flatMap_append, hfirst, hmore, flatMap_cons]
    · exact ⟨c, cs, rfl, hlow more hall⟩

/-- A text without pairs of halves is read back. -/
theorem exists_writeString [Host] (s : String) (h : unpaired s.toList = true) :
    ∃ chars : List CharText, quoted chars = writeString s ∧ charsOf chars = s.toList := by
  obtain ⟨chars, htext, hchars, -⟩ := exists_writeChars s.toList h
  exact ⟨chars, by rw [quoted, htext, writeString, cons_append], hchars⟩

mutual

/-- Values told by their text: no fraction, moment or key twice. -/
def Faithful : Value → Prop
  | .float _ | .moment _ => False
  | .list items => FaithfulItems items
  | .table entries => (entries.map (·.1)).Nodup ∧ FaithfulEntries entries
  | _ => True

/-- Items whose texts say all about their form. -/
def FaithfulItems : List Value → Prop
  | [] => True
  | v :: rest => Faithful v ∧ FaithfulItems rest

/-- Entries whose texts say all about their form. -/
def FaithfulEntries : List (String × Value) → Prop
  | [] => True
  | (_, v) :: rest => Faithful v ∧ FaithfulEntries rest

end

mutual

/-- Whether no text or key has a pair of halves. -/
def pairFree [Host] : Value → Bool
  | .text s => unpaired s.toList
  | .list items => pairFreeItems items
  | .table entries => pairFreeEntries entries
  | _ => true

/-- Whether items have no pairs of halves. -/
def pairFreeItems [Host] : List Value → Bool
  | [] => true
  | v :: rest => pairFree v && pairFreeItems rest

/-- Whether entries have no pairs of halves. -/
def pairFreeEntries [Host] : List (String × Value) → Bool
  | [] => true
  | (key, v) :: rest => (unpaired key.toList && pairFree v) && pairFreeEntries rest

end

/-- Items have no pairs if each has none. -/
theorem pairFreeItems_cons [Host] {v : Value} {rest : List Value} :
    pairFreeItems (v :: rest) = true ↔ pairFree v = true ∧ pairFreeItems rest = true := by
  rw [pairFreeItems, Bool.and_eq_true]

/-- Entries have no pairs if each has none. -/
theorem pairFreeEntries_cons [Host] {key : String} {v : Value} {rest : List (String × Value)} :
    pairFreeEntries ((key, v) :: rest) = true ↔
      (unpaired key.toList = true ∧ pairFree v = true) ∧ pairFreeEntries rest = true := by
  rw [pairFreeEntries, Bool.and_eq_true, Bool.and_eq_true]

mutual

/-- How many containers a value has nested in each other. -/
def depth : Value → Nat
  | .list items => depthOfItems items + 1
  | .table entries => depthOfEntries entries + 1
  | _ => 0

/-- How deeply some items are nested. -/
def depthOfItems : List Value → Nat
  | [] => 0
  | v :: rest => max (depth v) (depthOfItems rest)

/-- How deeply some entries are nested. -/
def depthOfEntries : List (String × Value) → Nat
  | [] => 0
  | (_, v) :: rest => max (depth v) (depthOfEntries rest)

end

/-- A line break with the indentation of a level. -/
def newLineGap (level : Nat) : Gap :=
  .lineBreak :: List.replicate (2 * level) .space

/-- A line's gap is written as a new line. -/
theorem text_newLineGap (level : Nat) : Gap.text .strict (newLineGap level) = newLine level := by
  rw [Gap.text, newLineGap, flatMap_cons, flatMap_replicate]
  exact congrArg ('\n' :: ·) flatten_replicate_singleton

/-- A document writes a value, and is read where there is room. -/
structure Document.Writes [Host] (d : Document) (level : Nat) (v : Value) : Prop where
  text : d.text .strict = writeAt level v
  value : d.value = v
  check : ∀ room, error? v = none → depth v ≤ room → d.check room = .ok ()

/-- Members write items, between two line breaks. -/
structure Members.WritesItems [Host] (members : Members .list) (level outer : Nat)
    (items : List Value) : Prop where
  text : newLine level ++ members.text .strict = writeItems level items ++ (newLine outer ++ [']'])
  values : members.values.map (·.2) = items
  check : ∀ room, errorInItems? items = none → depthOfItems items ≤ room →
    members.check room = .ok ()

/-- Members write entries, between two line breaks. -/
structure Members.WritesEntries [Host] (members : Members .table) (level outer : Nat)
    (entries : List (String × Value)) : Prop where
  text : newLine level ++ members.text .strict =
    writeEntries level entries ++ (newLine outer ++ ['\x7d'])
  values : members.values.map (fun member => (member.1.name, member.2)) = entries
  check : ∀ room, errorInEntries? entries = none → depthOfEntries entries ≤ room →
    members.check room = .ok ()

/-- Entries of different keys are put one after the other. -/
theorem putMembers_eq_append [Host] {entries : Keyed Value} {members : List (Label .table × Value)}
    (h : ((entries ++ members.map fun member => (member.1.name, member.2)).map (·.1)).Nodup) :
    putMembers entries members =
      entries ++ members.map fun member => (member.1.name, member.2) := by
  induction members generalizing entries with
  | nil => simp [putMembers]
  | cons member members ih =>
    have hnew : Keyed.put entries member.1.name member.2 =
        entries ++ [(member.1.name, member.2)] := by
      apply Keyed.put_of_not_mem
      intro hmem
      rw [map_append, nodup_append] at h
      exact h.2.2 _ hmem _ (by simp) rfl
    rw [putMembers, foldl_cons, hnew, ← putMembers, ih (by simpa using h)]
    simp

/-- A whole number is written as its sign and its digits. -/
theorem writes_int [Host] (level : Nat) (n : Int) :
    (Document.scalar (.number ⟨n < 0, n.natAbs, none, none⟩)).Writes level (.int n) := by
  refine ⟨?_, ?_, fun room herror _ => ?_⟩
  · change NumberText.text _ = intText n
    by_cases hn : n < 0 <;>
      simp [NumberText.text, NumberText.fractionText, NumberText.exponentText, intText, hn]
  · have hvalue : (if decide (n < 0) = true then -(n.natAbs : Int) else n.natAbs) = n := by
      simp only [decide_eq_true_eq]
      omega
    exact congrArg Value.int hvalue
  · have hshort : (Nat.toDigits 10 n.natAbs).length ≤ digitLimit := by
      by_contra hlong
      rw [error?, if_neg hlong] at herror
      cases herror
    simp [Document.check, Scalar.check, Nat.not_lt.mpr hshort]

/-- A key is written with the colon after it. -/
theorem exists_writeKey [Host] (key : String) (h : unpaired key.toList = true) :
    ∃ label : Label .table, label.text .strict = writeString key ++ ": ".toList ∧
      label.name = key := by
  obtain ⟨chars, htext, hchars⟩ := exists_writeString key h
  refine ⟨.key chars [] [.space], ?_, ?_⟩
  · rw [Label.text, htext]
    rfl
  · rw [Label.name, hchars, String.ofList_toList]

/-- A container with some room to spare is entered. -/
theorem enter_of_lt (kind : Container) {n room : Nat} (h : n + 1 ≤ room) :
    ∃ inner, enter kind room = .ok inner ∧ n ≤ inner := by
  cases room with
  | zero => cases h
  | succ inner => exact ⟨inner, rfl, Nat.le_of_succ_le_succ h⟩

/-- Of two parts in a row, both can be written. -/
theorem or_eq_none {a b : Option WriteError} (h : a.or b = none) : a = none ∧ b = none := by
  cases a with
  | none => exact ⟨rfl, h⟩
  | some e => cases h

mutual

/-- Every value is written as a document. -/
theorem exists_document [Host] (level : Nat) : (v : Value) → Faithful v → pairFree v = true →
    ∃ d : Document, d.Writes level v
  | .null, _, _ => ⟨.scalar .null, rfl, rfl, fun _ _ _ => rfl⟩
  | .bool b, _, _ => ⟨.scalar (.bool b), by cases b <;> rfl, rfl, fun _ _ _ => rfl⟩
  | .int n, _, _ => ⟨_, writes_int level n⟩
  | .float _, h, _ => h.elim
  | .moment _, h, _ => h.elim
  | .text s, _, hpairs => by
    obtain ⟨chars, htext, hchars⟩ := exists_writeString s hpairs
    refine ⟨.string chars, htext, ?_, fun _ _ _ => rfl⟩
    rw [Document.value, hchars, String.ofList_toList]
  | .list [], _, _ => by
    refine ⟨.empty .list [], rfl, rfl, fun room _ hroom => ?_⟩
    obtain ⟨inner, henter, -⟩ := enter_of_lt .list hroom
    rw [Document.check, henter, Except.map]
  | .list (v :: items), h, hpairs => by
    obtain ⟨members, hmembers⟩ := exists_items (level + 1) level (v :: items) (by simp) h hpairs
    refine ⟨.filled .list (newLineGap (level + 1)) members, ?_, ?_, fun room herror hroom => ?_⟩
    · have htext : writeAt level (.list (v :: items)) =
          '[' :: writeItems (level + 1) (v :: items) ++ newLine level ++ [']'] := rfl
      rw [Document.text, text_newLineGap, hmembers.text, htext]
      simp [Container.opening]
    · exact congrArg Value.list hmembers.values
    · obtain ⟨inner, henter, hinner⟩ := enter_of_lt .list hroom
      rw [Document.check, henter]
      exact hmembers.check inner herror hinner
  | .table [], _, _ => by
    refine ⟨.empty .table [], rfl, rfl, fun room _ hroom => ?_⟩
    obtain ⟨inner, henter, -⟩ := enter_of_lt .table hroom
    rw [Document.check, henter, Except.map]
  | .table (entry :: entries), h, hpairs => by
    obtain ⟨members, hmembers⟩ :=
      exists_entries (level + 1) level (entry :: entries) (by simp) h.2 hpairs
    refine ⟨.filled .table (newLineGap (level + 1)) members, ?_, ?_, fun room herror hroom => ?_⟩
    · have htext : writeAt level (.table (entry :: entries)) =
          '\x7b' :: writeEntries (level + 1) (entry :: entries) ++ newLine level ++ ['\x7d'] := rfl
      rw [Document.text, text_newLineGap, hmembers.text, htext]
      simp [Container.opening]
    · have hentries : putMembers [] members.values = entry :: entries := by
        rw [putMembers_eq_append, nil_append, hmembers.values]
        rw [nil_append, hmembers.values]
        exact h.1
      exact congrArg Value.table hentries
    · obtain ⟨inner, henter, hinner⟩ := enter_of_lt .table hroom
      rw [Document.check, henter]
      exact hmembers.check inner herror hinner

/-- Items are written as members of a list. -/
theorem exists_items [Host] (level outer : Nat) : (items : List Value) → items ≠ [] →
    FaithfulItems items → pairFreeItems items = true →
      ∃ members : Members .list, members.WritesItems level outer items
  | [], hne, _, _ => absurd rfl hne
  | [v], _, h, hpairs => by
    replace hpairs := pairFreeItems_cons.mp hpairs
    obtain ⟨d, hd⟩ := exists_document level v h.1 hpairs.1
    refine ⟨.last .item d (newLineGap outer) none, ?_, by simp [Members.values, hd.value],
      fun room herror hroom => ?_⟩
    · rw [Members.text, hd.text, text_newLineGap]
      simp [writeItems, Label.text, commaText, Container.closing]
    · exact hd.check room (or_eq_none herror).1 (Nat.le_trans (Nat.le_max_left ..) hroom)
  | v :: w :: items, _, h, hpairs => by
    replace hpairs := pairFreeItems_cons.mp hpairs
    obtain ⟨d, hd⟩ := exists_document level v h.1 hpairs.1
    obtain ⟨more, hmore⟩ := exists_items level outer (w :: items) (by simp) h.2 hpairs.2
    refine ⟨.next .item d [] (newLineGap level) more, ?_,
      by simp [Members.values, hd.value, hmore.values], fun room herror hroom => ?_⟩
    · rw [Members.text, hd.text, text_newLineGap, hmore.text]
      simp [writeItems, Label.text, Gap.text]
    · rw [Members.check,
        hd.check room (or_eq_none herror).1 (Nat.le_trans (Nat.le_max_left ..) hroom)]
      exact hmore.check room (or_eq_none herror).2 (Nat.le_trans (Nat.le_max_right ..) hroom)

/-- Entries are written as members of a table. -/
theorem exists_entries [Host] (level outer : Nat) : (entries : List (String × Value)) →
    entries ≠ [] → FaithfulEntries entries → pairFreeEntries entries = true →
      ∃ members : Members .table, members.WritesEntries level outer entries
  | [], hne, _, _ => absurd rfl hne
  | [(key, v)], _, h, hpairs => by
    replace hpairs := pairFreeEntries_cons.mp hpairs
    obtain ⟨label, hlabel, hname⟩ := exists_writeKey key hpairs.1.1
    obtain ⟨d, hd⟩ := exists_document level v h.1 hpairs.1.2
    refine ⟨.last label d (newLineGap outer) none, ?_, by simp [Members.values, hd.value, hname],
      fun room herror hroom => ?_⟩
    · rw [Members.text, hd.text, text_newLineGap, hlabel]
      simp [writeEntries, commaText, Container.closing]
    · exact hd.check room (or_eq_none herror).1 (Nat.le_trans (Nat.le_max_left ..) hroom)
  | (key, v) :: next :: entries, _, h, hpairs => by
    replace hpairs := pairFreeEntries_cons.mp hpairs
    obtain ⟨label, hlabel, hname⟩ := exists_writeKey key hpairs.1.1
    obtain ⟨d, hd⟩ := exists_document level v h.1 hpairs.1.2
    obtain ⟨more, hmore⟩ := exists_entries level outer (next :: entries) (by simp) h.2 hpairs.2
    refine ⟨.next label d [] (newLineGap level) more, ?_,
      by simp [Members.values, hd.value, hname, hmore.values], fun room herror hroom => ?_⟩
    · rw [Members.text, hd.text, text_newLineGap, hmore.text, hlabel]
      simp [writeEntries, Gap.text]
    · rw [Members.check,
        hd.check room (or_eq_none herror).1 (Nat.le_trans (Nat.le_max_left ..) hroom)]
      exact hmore.check room (or_eq_none herror).2 (Nat.le_trans (Nat.le_max_right ..) hroom)

end

/-- What can be written is read back where there is room. -/
theorem read_text [Host] {v : Value} (h : Faithful v) (hpairs : pairFree v = true)
    (herror : error? v = none) {room : Nat} (hroom : depth v ≤ room) :
    read room (textOf v) = .ok v := by
  obtain ⟨d, hd⟩ := exists_document 0 v h hpairs
  have hread := d.read_text room [] []
  rw [hd.text, hd.value, hd.check room herror hroom] at hread
  simpa [Gap.text, textOf, Except.map] using hread

/-- All characters of a text are in ASCII. -/
def IsAscii (cs : List Char) : Prop :=
  ∀ c ∈ cs, c.toNat < 128

/-- Joined texts are in ASCII if both are. -/
theorem isAscii_append {cs more : List Char} : IsAscii (cs ++ more) ↔ IsAscii cs ∧ IsAscii more :=
  forall_mem_append

/-- A text is in ASCII if its first character and the rest are. -/
theorem isAscii_cons {c : Char} {cs : List Char} : IsAscii (c :: cs) ↔ c.toNat < 128 ∧ IsAscii cs :=
  forall_mem_cons

/-- A closed text is in ASCII if its characters are. -/
theorem isAscii_of_all {cs : List Char} (h : cs.all (·.toNat < 128) = true) : IsAscii cs :=
  fun c hc => by simpa using all_eq_true.mp h c hc

/-- A written code is in ASCII. -/
theorem isAscii_codeEscape (n : Nat) : IsAscii (codeEscape n) := by
  have hdigit : ∀ d < 16, (Nat.digitChar d).toNat < 128 := by decide
  have hdigits : ∀ width n, IsAscii (Text.hexDigits width n) := by
    intro width
    induction width with
    | zero => exact fun n => forall_mem_nil _
    | succ width ih =>
      exact fun n => isAscii_append.mpr
        ⟨ih _, forall_mem_singleton.mpr (hdigit _ (Nat.mod_lt n (by decide)))⟩
  exact isAscii_cons.mpr ⟨by decide, isAscii_cons.mpr ⟨by decide, hdigits 4 n⟩⟩

/-- A character is written in ASCII. -/
theorem isAscii_writeChar [Host] (c : Char) : IsAscii (writeChar c) := by
  rcases writeChar_cases c with ⟨letter, -, hletter, h⟩ | ⟨-, -, -, hplain, h⟩ | ⟨-, h⟩ | ⟨-, h⟩
  · exact h ▸ isAscii_cons.mpr ⟨by decide, forall_mem_singleton.mpr hletter⟩
  · exact h ▸ forall_mem_singleton.mpr hplain
  · exact h ▸ isAscii_codeEscape _
  · exact h ▸ isAscii_append.mpr ⟨isAscii_codeEscape _, isAscii_codeEscape _⟩

/-- A written string is in ASCII. -/
theorem isAscii_writeString [Host] (s : String) : IsAscii (writeString s) := by
  have hchars : IsAscii (s.toList.flatMap writeChar) := by
    intro d hd
    obtain ⟨c, -, hd⟩ := mem_flatMap.mp hd
    exact isAscii_writeChar c d hd
  exact isAscii_append.mpr ⟨isAscii_cons.mpr ⟨by decide, hchars⟩, isAscii_of_all rfl⟩

/-- A new line is in ASCII. -/
theorem isAscii_newLine (level : Nat) : IsAscii (newLine level) :=
  isAscii_cons.mpr ⟨by decide, fun c hc => by rw [(mem_replicate.mp hc).2]; decide⟩

/-- Digits and a sign are in ASCII. -/
theorem isAscii_intText (n : Int) : IsAscii (intText n) := by
  have hdigits : IsAscii (Nat.toDigits 10 n.natAbs) := by
    intro c hc
    have hdigit := isDigit_of_mem_digits hc
    simp only [Char.isDigit, Bool.and_eq_true, decide_eq_true_eq, UInt32.le_iff_toNat_le] at hdigit
    exact Nat.lt_of_le_of_lt hdigit.2 (by decide)
  unfold intText
  split
  · exact isAscii_cons.mpr ⟨by decide, hdigits⟩
  · exact hdigits

mutual

/-- The text of a value is in ASCII, whatever it holds. -/
theorem isAscii_writeAt [Host] (level : Nat) : (v : Value) → Faithful v → IsAscii (writeAt level v)
  | .null, _ => isAscii_of_all rfl
  | .bool true, _ => isAscii_of_all rfl
  | .bool false, _ => isAscii_of_all rfl
  | .int n, _ => isAscii_intText n
  | .float _, h => h.elim
  | .moment _, h => h.elim
  | .text s, _ => isAscii_writeString s
  | .list [], _ => isAscii_of_all rfl
  | .list (v :: items), h => by
    have hitems := isAscii_writeItems (level + 1) (v :: items) h
    simp only [writeAt, cons_append, isAscii_cons, isAscii_append]
    exact ⟨by decide, ⟨hitems, isAscii_newLine level⟩, by decide, forall_mem_nil _⟩
  | .table [], _ => isAscii_of_all rfl
  | .table (entry :: entries), h => by
    have hentries := isAscii_writeEntries (level + 1) (entry :: entries) h.2
    simp only [writeAt, cons_append, isAscii_cons, isAscii_append]
    exact ⟨by decide, ⟨hentries, isAscii_newLine level⟩, by decide, forall_mem_nil _⟩

/-- The text of items is in ASCII. -/
theorem isAscii_writeItems [Host] (level : Nat) : (items : List Value) → FaithfulItems items →
    IsAscii (writeItems level items)
  | [], _ => forall_mem_nil _
  | [v], h => isAscii_append.mpr ⟨isAscii_newLine level, isAscii_writeAt level v h.1⟩
  | v :: w :: rest, h => by
    have hrest := isAscii_writeItems level (w :: rest) h.2
    simp only [writeItems, isAscii_cons, isAscii_append]
    exact ⟨⟨isAscii_newLine level, isAscii_writeAt level v h.1⟩, by decide, hrest⟩

/-- The text of entries is in ASCII. -/
theorem isAscii_writeEntries [Host] (level : Nat) : (entries : List (String × Value)) →
    FaithfulEntries entries → IsAscii (writeEntries level entries)
  | [], _ => forall_mem_nil _
  | [(key, v)], h => by
    simp only [writeEntries, isAscii_append]
    exact ⟨⟨⟨isAscii_newLine level, isAscii_writeString key⟩, isAscii_of_all rfl⟩,
      isAscii_writeAt level v h.1⟩
  | (key, v) :: next :: rest, h => by
    have hrest := isAscii_writeEntries level (next :: rest) h.2
    simp only [writeEntries, isAscii_cons, isAscii_append]
    exact ⟨⟨⟨⟨isAscii_newLine level, isAscii_writeString key⟩, isAscii_of_all rfl⟩,
      isAscii_writeAt level v h.1⟩, by decide, hrest⟩

end

end SiteAtlas.Data.Json
