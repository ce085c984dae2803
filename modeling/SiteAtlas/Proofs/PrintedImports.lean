import SiteAtlas.Proofs.Latest
import SiteAtlas.Proofs.PreferredReading

/-!
# Printed imports

Import statements are printed in the usual spacing and read back by the recogniser, in order, and
each with its names, local names, qualifiers and source.
-/

namespace SiteAtlas

open List

variable {x : Char} {rest : List Char}

variable (name : Identifier) (hasGroup : Bool) (s : ImportStatement)
  (defaultName : Option Identifier)

/-- A word character is no blank. -/
theorem Text.isBlank_eq_false_of_isWord (h : Text.isWord x = true) : Text.isBlank x = false := by
  rw [Bool.eq_false_iff]
  intro hblank
  by_cases hascii : x.toNat < 128
  · have hapart : ∀ n < 128, Text.isBlank (Char.ofNat n) = true →
        Text.isWord (Char.ofNat n) = false := by decide +kernel
    have hword := hapart x.toNat hascii
    rw [Char.ofNat_toNat, h] at hword
    exact Bool.noConfusion (hword hblank)
  · -- Beyond the ASCII block both classes are tables of ranges.
    have hapart : ∀ word ∈ Text.wordRanges, ∀ blank ∈ Text.blankRanges,
        blank.2 < word.1 ∨ word.2 < blank.1 := by
      unfold Text.wordRanges Text.rangesOf Text.numbersOf
      simp only [flatMap_cons]
      -- The kernel decodes texts slowly.
      repeat rw [String.toList_ofList]
      decide +kernel
    obtain ⟨blank, hmem, hlow, hhigh⟩ := Text.inRanges_iff.mp hblank
    rw [Text.isWord, if_neg hascii] at h
    obtain ⟨word, hword, hfrom, hto⟩ := Text.inRanges_iff.mp h
    have := hapart word hword blank hmem
    omega

namespace Source

/-- An identifier: a word other than the qualifier `type`. -/
structure Identifier where
  text : String
  ne_nil : text.toList ≠ []
  isWord : ∀ x ∈ text.toList, Text.isWord x = true
  ne_type : text.toList ≠ "type".toList

/-- A source of imports: a text without quotes that is not empty. -/
structure Origin where
  text : String
  ne_nil : text.toList ≠ []
  unquoted : ∀ x ∈ text.toList, x ≠ '\x27' ∧ x ≠ '"'

/-- The marks that a source is quoted with. -/
inductive QuoteMark where
  | single
  | double

/-- The character of a mark. -/
def QuoteMark.char : QuoteMark → Char
  | .single => '\x27'
  | .double => '"'

/-- A member of a brace list, with its local name if it is renamed. -/
structure Specifier where
  name : Identifier
  localName : Option Identifier
  isType : Bool

/-- Beside a default name: everything as one name, or members. -/
inductive NameGroup where
  | all (name : Identifier)
  | listed (members : List Specifier)

/-- An import statement, without names for effects only. -/
structure ImportStatement where
  isTypeOnly : Bool
  defaultName : Option Identifier
  group : Option NameGroup
  origin : Origin
  mark : QuoteMark

/-- The names of a member. -/
def Specifier.printNames (s : Specifier) : List Char :=
  s.name.text.toList ++ match s.localName with
    | some name => " as ".toList ++ name.text.toList
    | none => []

/-- The printed form of a member. -/
def Specifier.print (s : Specifier) : List Char :=
  (if s.isType then "type ".toList else []) ++ s.printNames

/-- What is printed between the braces of a list. -/
def printMembers (members : List Specifier) : List Char :=
  if members.isEmpty then []
  else ' ' :: Text.join ", ".toList (members.map Specifier.print) ++ [' ']

/-- A printed default name, with what separates it from the rest. -/
def printDefault (hasGroup : Bool) : Option Identifier → List Char
  | some name => name.text.toList ++ if hasGroup then ", ".toList else " ".toList
  | none => []

/-- A printed group of names. -/
def printGroup : Option NameGroup → List Char
  | some (.all name) => "* as ".toList ++ name.text.toList ++ " ".toList
  | some (.listed members) => '\x7b' :: printMembers members ++ "\x7d ".toList
  | none => []

namespace ImportStatement

/-- The name that stands for everything, if there is one. -/
def namespaceName (s : ImportStatement) : Option Identifier :=
  match s.group with
  | some (.all name) => some name
  | _ => none

/-- The members in braces, if there is a list. -/
def listed? (s : ImportStatement) : Option (List Specifier) :=
  match s.group with
  | some (.listed members) => some members
  | _ => none

/-- The members in braces. -/
def members (s : ImportStatement) : List Specifier :=
  s.listed?.getD []

/-- Whether nothing is imported by name. -/
def isSideEffect (s : ImportStatement) : Bool :=
  s.defaultName.isNone && s.group.isNone

/-- A statement up to the quote that ends its source. -/
def printBody (s : ImportStatement) : List Char :=
  "import ".toList ++ (if s.isTypeOnly then "type ".toList else []) ++
    printDefault s.group.isSome s.defaultName ++ printGroup s.group ++
    (if s.isSideEffect then [] else "from ".toList) ++
    [s.mark.char] ++ s.origin.text.toList ++ [s.mark.char]

/-- The printed form of a statement, on a line of its own. -/
def print (s : ImportStatement) : List Char :=
  s.printBody ++ ";\n".toList

/-- What is captured of a statement, latest first. -/
def captured (s : ImportStatement) : List (Nat × List Char) :=
  [(5, s.origin.text.toList)] ++ (s.listed?.toList.map fun members => (4, printMembers members)) ++
    (s.namespaceName.toList.map fun name => (3, name.text.toList)) ++
    (s.defaultName.toList.map fun name => (2, name.text.toList)) ++
    if s.isTypeOnly then [(1, "type".toList)] else []

/-- The local names of renamed members by exported name, in order. -/
def renamings (s : ImportStatement) : List (String × String) :=
  s.members.filterMap fun m => m.localName.map fun name => (m.name.text, name.text)

/-- A statement's names: default, for everything, of members. -/
def names (s : ImportStatement) : List String :=
  (s.defaultName.toList ++ s.namespaceName.toList ++ s.members.map (·.name)).map (·.text)

/-- What a statement declares. -/
def record (s : ImportStatement) : Import where
  names := s.names
  source := s.origin.text
  isLocal := isLocalSource s.origin.text
  aliases := s.renamings.foldl (fun table entry => table.put entry.1 entry.2) []
  isDefault := s.defaultName.isSome
  isNamespace := s.namespaceName.isSome
  isTypeOnly := s.isTypeOnly
  isSideEffect := s.isSideEffect
  namespaceName := s.namespaceName.map (·.text)
  typeNames := (s.members.filter (·.isType)).map (·.name.text)

/-- The names that a statement brings in as values: all but members with a `type` qualifier, and
none for types or effects only. -/
def valueNames (s : ImportStatement) : List String :=
  if s.isTypeOnly || s.isSideEffect then []
  else (s.defaultName.toList ++ s.namespaceName.toList ++
    (s.members.filter (!·.isType)).map (·.name)).map (·.text)

end ImportStatement

/-- A joined text has characters from its parts and separators. -/
theorem mem_join {separator : List Char} {parts : List (List Char)}
    (h : x ∈ Text.join separator parts) : x ∈ separator ∨ ∃ part ∈ parts, x ∈ part := by
  induction parts with
  | nil => cases h
  | cons part parts ih =>
    cases parts with
    | nil => exact .inr ⟨part, mem_cons_self, h⟩
    | cons next others =>
      rw [Text.join, mem_append, mem_append] at h
      rcases h with (hpart | hseparator) | hrest
      · exact .inr ⟨part, mem_cons_self, hpart⟩
      · exact .inl hseparator
      · rcases ih hrest with hseparator | ⟨other, hother, hx⟩
        · exact .inl hseparator
        · exact .inr ⟨other, mem_cons_of_mem _ hother, hx⟩
      · exact cons_ne_nil next others

/-- A member has words and blanks only. -/
theorem Specifier.isWord_of_mem_print (s : Specifier) (h : x ∈ s.print) :
    Text.isWord x = true ∨ x = ' ' := by
  have htype : ∀ y ∈ "type ".toList, Text.isWord y = true ∨ y = ' ' := by simp; decide
  have has : ∀ y ∈ " as ".toList, Text.isWord y = true ∨ y = ' ' := by simp; decide
  unfold Specifier.print Specifier.printNames at h
  rw [mem_append, mem_append] at h
  rcases h with hqualifier | hname | hlocal
  · split at hqualifier
    · exact htype x hqualifier
    · cases hqualifier
  · exact .inl (s.name.isWord x hname)
  · split at hlocal
    · rename_i name _
      rcases mem_append.mp hlocal with hx | hx
      · exact has x hx
      · exact .inl (name.isWord x hx)
    · cases hlocal

/-- What stands between braces consists of words, blanks and commas. -/
theorem isWord_of_mem_printMembers (members : List Specifier) (h : x ∈ printMembers members) :
    Text.isWord x = true ∨ x = ' ' ∨ x = ',' := by
  have hseparator : ∀ y ∈ ", ".toList, y = ' ' ∨ y = ',' := by simp
  unfold printMembers at h
  split at h
  · cases h
  · rw [cons_append, mem_cons, mem_append, mem_singleton] at h
    rcases h with rfl | hjoined | rfl
    · exact .inr (.inl rfl)
    · rcases mem_join hjoined with hx | ⟨part, hpart, hx⟩
      · exact .inr (hseparator x hx)
      · obtain ⟨s, -, rfl⟩ := mem_map.mp hpart
        exact (s.isWord_of_mem_print hx).imp_right .inl
    · exact .inr (.inl rfl)

/-- No other character stands between braces. -/
theorem ne_of_mem_printMembers {members : List Specifier} {y : Char} (hx : x ∈ printMembers members)
    (hword : Text.isWord y = false) (hblank : y ≠ ' ') (hcomma : y ≠ ',') : x ≠ y := by
  rintro rfl
  rcases isWord_of_mem_printMembers members hx with h | h | h
  · exact Bool.noConfusion (h.symm.trans hword)
  · exact hblank h
  · exact hcomma h

namespace Import

open Pattern

/-- An identifier stands before what is no word. -/
theorem takeWhile_identifier (hrest : headIs Text.isWord rest = false) :
    (name.text.toList ++ rest).takeWhile Text.isWord = name.text.toList := by
  rw [takeWhile_append_of_pos name.isWord]
  cases rest with
  | nil => simp
  | cons x rest =>
    have hx : Text.isWord x = false := hrest
    simp [hx]

/-- A name is read as a word. -/
theorem reads_word (hrest : headIs Text.isWord rest = false) :
    word.Reads name.text.toList rest [] :=
  reads_many1 name.ne_nil name.isWord hrest

/-- A word begins with no blank. -/
theorem headIs_isBlank_word {cs : List Char} (hne : cs ≠ [])
    (hword : ∀ x ∈ cs, Text.isWord x = true) (rest : List Char) :
    headIs Text.isBlank (cs ++ rest) = false := by
  obtain ⟨x, others, rfl⟩ := exists_cons_of_ne_nil hne
  exact Text.isBlank_eq_false_of_isWord (hword x mem_cons_self)

/-- A name begins with no blank. -/
theorem headIs_isBlank_identifier (rest : List Char) :
    headIs Text.isBlank (name.text.toList ++ rest) = false :=
  headIs_isBlank_word name.ne_nil name.isWord rest

/-- A blank is read before none. -/
theorem reads_blanks1 (hrest : headIs Text.isBlank rest = false) : blanks1.Reads [' '] rest [] :=
  reads_many1 (by simp) (by simp; decide) hrest

/-- A blank is read if it is there. -/
theorem reads_blanks (hrest : headIs Text.isBlank rest = false) : blanks.Reads [' '] rest [] :=
  reads_many (by simp; decide) hrest

/-- No blank is read where there is none. -/
theorem reads_noBlanks (hrest : headIs Text.isBlank rest = false) : blanks.Reads [] rest [] :=
  reads_many (by simp) hrest

/-- Blanks begin with a blank. -/
theorem begins_blanks1 : blanks1.Begins Text.isBlank :=
  ⟨Nat.one_pos, fun _ h => h⟩

/-- A word is what precedes a blank. -/
theorem takeWhile_of_word_blank {cs : List Char} {c e : Cursor}
    (hcs : ∀ y ∈ cs, Text.isWord y = true) (hpast : c.Past cs e) (he : e.after = x :: rest)
    (hx : Text.isBlank x = true) : c.after.takeWhile Text.isWord = cs := by
  have hword : Text.isWord x = false := by
    rw [Bool.eq_false_iff]
    intro hword
    rw [Text.isBlank_eq_false_of_isWord hword] at hx
    cases hx
  rw [hpast.after, he, takeWhile_append_of_pos hcs, takeWhile_cons, hword]
  simp

/-- The qualifier `type` is read only where it is a whole word. -/
theorem takeWhile_of_reaches_typeClause {c d : Cursor}
    (h : (Pattern.capture 1 (text "type") ++ blanks1).Reaches c d) :
    c.after.takeWhile Text.isWord = "type".toList := by
  obtain ⟨e, ⟨e', htype, rfl⟩, hblanks⟩ := h
  obtain ⟨x, rest, hafter, hx⟩ := begins_blanks1.exists_cons hblanks
  exact takeWhile_of_word_blank (by simp; decide) (past_of_reaches_chars htype) hafter hx

/-- The qualifier of a statement is read if it is there. -/
theorem reads_typeClause (isTypeOnly : Bool) (hblank : headIs Text.isBlank rest = false)
    (hword : isTypeOnly = false → rest.takeWhile Text.isWord ≠ "type".toList) :
    (optional (Pattern.capture 1 (text "type") ++ blanks1)).Reads
      (if isTypeOnly then "type ".toList else []) rest
      (if isTypeOnly then [(1, "type".toList)] else []) := by
  cases isTypeOnly with
  | true =>
    have hseq := ((reads_text "type" ([' '] ++ rest)).capture 1).seq (reads_blanks1 hblank)
    exact hseq.optional
  | false =>
    refine FailsAt.optional fun c d hc hreach => hword rfl ?_
    rw [← hc]
    exact takeWhile_of_reaches_typeClause hreach

/-- The default name of a statement is read with what separates it from the rest. -/
theorem reads_defaultClause (hblank : headIs Text.isBlank rest = false)
    (hcomma : headIs (· == ',') rest = false)
    (hword : defaultName = none → headIs Text.isWord rest = false) :
    (optional (Pattern.capture 2 word ++ blanks ++ optional (char ',') ++ blanks)).Reads
      (printDefault hasGroup defaultName) rest
      (defaultName.toList.map fun name => (2, name.text.toList)) := by
  cases defaultName with
  | none =>
    have hbegins : (Pattern.capture 2 word ++ blanks ++ optional (char ',') ++ blanks).Begins
        Text.isWord := ⟨Nat.one_pos, fun _ h => h⟩
    exact FailsAt.optional (hbegins.failsAt (hword rfl))
  | some name =>
    cases hasGroup with
    | true =>
      have hname : word.Reads name.text.toList ([] ++ ([','] ++ ([' '] ++ rest))) [] :=
        reads_word name rfl
      have hseq := (((hname.capture 2).seq (reads_noBlanks rfl)).seq
        (reads_char ',' ([' '] ++ rest)).optional).seq (reads_blanks hblank)
      rw [append_nil, append_assoc] at hseq
      exact hseq.optional
    | false =>
      have hname : word.Reads name.text.toList ([' '] ++ ([] ++ ([] ++ rest))) [] :=
        reads_word name rfl
      have hnone : (optional (char ',')).Reads [] ([] ++ rest) [] := by
        have hbegins : (char ',').Begins (· == ',') := fun _ h => h
        exact FailsAt.optional (hbegins.failsAt hcomma)
      have hseq := (((hname.capture 2).seq (reads_blanks hblank)).seq hnone).seq
        (reads_noBlanks hblank)
      rw [append_nil, append_nil] at hseq
      exact hseq.optional

/-- A name for everything is read. -/
theorem reads_namespaceClause (name : Option Identifier) (hblank : headIs Text.isBlank rest = false)
    (hstar : name = none → headIs (· == '*') rest = false) :
    (optional (char '*' ++ blanks1 ++ text "as" ++ blanks1 ++ Pattern.capture 3 word ++
        blanks)).Reads
      (printGroup (name.map .all)) rest (name.toList.map fun name => (3, name.text.toList)) := by
  cases name with
  | none =>
    have hbegins : (char '*' ++ blanks1 ++ text "as" ++ blanks1 ++ Pattern.capture 3 word ++
        blanks).Begins (· == '*') := fun _ h => h
    exact FailsAt.optional (hbegins.failsAt (hstar rfl))
  | some name =>
    have hname : word.Reads name.text.toList ([' '] ++ rest) [] := reads_word name rfl
    have hseq := (((((reads_char '*' _).seq (reads_blanks1 rfl)).seq (reads_text "as" _)).seq
      (reads_blanks1 (headIs_isBlank_identifier name _))).seq (hname.capture 3)).seq
      (reads_blanks hblank)
    exact hseq.optional

/-- A list in braces is read. -/
theorem reads_braceClause (listed : Option (List Specifier))
    (hbrace : listed = none → headIs (· == '\x7b') rest = false) :
    (optional (char '\x7b' ++ Pattern.capture 4 (many (noneOf "\x7d")) ++ char '\x7d')).Reads
      (listed.toList.flatMap fun members => ['\x7b'] ++ printMembers members ++ ['\x7d']) rest
      (listed.toList.map fun members => (4, printMembers members)) := by
  cases listed with
  | none =>
    have hbegins : (char '\x7b' ++ Pattern.capture 4 (many (noneOf "\x7d")) ++
        char '\x7d').Begins (· == '\x7b') := fun _ h => h
    exact FailsAt.optional (hbegins.failsAt (hbrace rfl))
  | some members =>
    have hblock : (many (noneOf "\x7d")).Reads (printMembers members) (['\x7d'] ++ rest) [] := by
      refine reads_many (fun x hx => ?_) rfl
      have hclosing : x ≠ '\x7d' := ne_of_mem_printMembers hx (by decide) (by decide) (by decide)
      simpa using hclosing
    have hseq := ((reads_char '\x7b' _).seq (hblock.capture 4)).seq (reads_char '\x7d' rest)
    simpa using hseq.optional

/-- The word before a source is read if it is there. -/
theorem reads_fromClause (isSideEffect : Bool) (hblank : headIs Text.isBlank rest = false)
    (hfrom : headIs (· == 'f') rest = false) :
    (optional (text "from" ++ blanks1)).Reads (if isSideEffect then [] else "from ".toList) rest
      [] := by
  cases isSideEffect with
  | true =>
    have hbegins : (text "from" ++ blanks1).Begins (· == 'f') := fun _ h => h
    exact FailsAt.optional (hbegins.failsAt hfrom)
  | false =>
    have hseq := (reads_text "from" ([' '] ++ rest)).seq (reads_blanks1 hblank)
    exact hseq.optional

/-- A quote mark is read. -/
theorem reads_quote (mark : QuoteMark) (rest : List Char) :
    (oneOf "'\"").Reads [mark.char] rest [] := by
  apply reads_one
  cases mark <;> decide

/-- A source is read up to the quote that ends it. -/
theorem reads_origin (origin : Origin) (mark : QuoteMark) (rest : List Char) :
    (many1 (noneOf "'\"")).Reads origin.text.toList ([mark.char] ++ rest) [] := by
  refine reads_many1 origin.ne_nil (fun x hx => ?_) ?_
  · have := origin.unquoted x hx
    simpa using this
  · cases mark <;> rfl

/-- A group is read by the clause for it, after whatever stands before. -/
theorem reads_group {p : Pattern} {printed : List Char} {captured : List (Nat × List Char)}
    (hp : p.Reads printed (printGroup s.group ++ rest) captured)
    (hblank : headIs Text.isBlank rest = false) (hstar : headIs (· == '*') rest = false)
    (hbrace : headIs (· == '\x7b') rest = false) :
    (p ++ optional (char '*' ++ blanks1 ++ text "as" ++ blanks1 ++ Pattern.capture 3 word ++
        blanks) ++
      optional (char '\x7b' ++ Pattern.capture 4 (many (noneOf "\x7d")) ++ char '\x7d') ++
      blanks).Reads (printed ++ printGroup s.group) rest
      ((s.listed?.toList.map fun members => (4, printMembers members)) ++
        (s.namespaceName.toList.map fun name => (3, name.text.toList)) ++ captured) := by
  have hnone : (optional (char '\x7b' ++ Pattern.capture 4 (many (noneOf "\x7d")) ++
      char '\x7d')).Reads [] ([] ++ rest) [] := reads_braceClause none fun _ => hbrace
  unfold ImportStatement.listed? ImportStatement.namespaceName
  cases hgroup : s.group with
  | none =>
    rw [hgroup] at hp
    have hseq := ((hp.seq (reads_namespaceClause none hblank fun _ => hstar)).seq hnone).seq
      (reads_noBlanks hblank)
    exact hseq.of_eq (by unfold printGroup; simp) rfl
  | some group =>
    rw [hgroup] at hp
    cases group with
    | all name =>
      have hseq := ((hp.seq (reads_namespaceClause (some name) hblank nofun)).seq hnone).seq
        (reads_noBlanks hblank)
      exact hseq.of_eq (by unfold printGroup; simp) rfl
    | listed members =>
      have htail : printGroup (some (.listed members)) ++ rest =
          [] ++ (['\x7b'] ++ printMembers members ++ ['\x7d'] ++ [] ++ ([' '] ++ rest)) := by
        unfold printGroup
        simp
      rw [htail] at hp
      have hseq := ((hp.seq (reads_namespaceClause none rfl fun _ => rfl)).seq
        (reads_braceClause (some members) nofun)).seq (reads_blanks hblank)
      exact hseq.of_eq (by unfold printGroup; simp) rfl

/-- After its names, a statement goes on with `from` or with a quote mark. -/
theorem headIs_source {test : Char → Bool} (rest : List Char) (hfrom : test 'f' = false)
    (hmark : test s.mark.char = false) :
    headIs test ((if s.isSideEffect then [] else "from ".toList) ++ ([s.mark.char] ++ rest)) =
      false := by
  split
  · exact hmark
  · simpa [headIs] using hfrom

/-- After its default name, a statement goes on with a group or with its source. -/
theorem headIs_group {test : Char → Bool} (hstar : test '*' = false) (hbrace : test '\x7b' = false)
    (hrest : s.group = none → headIs test rest = false) :
    headIs test (printGroup s.group ++ rest) = false := by
  unfold printGroup
  split
  · simpa [headIs] using hstar
  · simpa [headIs] using hbrace
  · rename_i hgroup
    exact hrest hgroup

/-- A default name begins with no blank. -/
theorem headIs_isBlank_default (hrest : headIs Text.isBlank rest = false) :
    headIs Text.isBlank (printDefault hasGroup defaultName ++ rest) = false := by
  cases defaultName with
  | none => exact hrest
  | some name =>
    unfold printDefault
    rw [append_assoc]
    exact headIs_isBlank_identifier name _

/-- No default name is the qualifier `type`. -/
theorem takeWhile_default (hrest : defaultName = none → headIs Text.isWord rest = false) :
    (printDefault hasGroup defaultName ++ rest).takeWhile Text.isWord ≠ "type".toList := by
  cases defaultName with
  | none =>
    cases rest with
    | nil => simp [printDefault]
    | cons x rest =>
      have hx : Text.isWord x = false := hrest rfl
      simp [printDefault, hx]
  | some name =>
    have hafter : headIs Text.isWord ((if hasGroup then ", ".toList else " ".toList) ++ rest) =
        false := by
      cases hasGroup <;> simp [headIs] <;> decide
    unfold printDefault
    rw [append_assoc, takeWhile_identifier name hafter]
    exact name.ne_type

/-- A printed statement is read from its beginning to the last quote. -/
theorem reads_statement (rest : List Char) : statement.Reads s.printBody rest s.captured := by
  have hmark : ∀ test : Char → Bool, test '\x27' = false → test '"' = false →
      test s.mark.char = false := by
    intro test hsingle hdouble
    cases s.mark with
    | single => exact hsingle
    | double => exact hdouble
  set source := s.origin.text.toList ++ ([s.mark.char] ++ rest) with hsource
  set named := (if s.isSideEffect then [] else "from ".toList) ++ ([s.mark.char] ++ source)
    with hnamed
  -- No clause is read too far, as each one ends before a character that cannot belong to it.
  have hends : ∀ test : Char → Bool, test 'f' = false → test '\x27' = false → test '"' = false →
      headIs test named = false :=
    fun test hfrom hsingle hdouble => headIs_source s source hfrom (hmark test hsingle hdouble)
  have hblank : headIs Text.isBlank named = false :=
    hends _ (by decide) (by decide) (by decide)
  have hgroup : headIs Text.isBlank (printGroup s.group ++ named) = false :=
    headIs_group s (by decide) (by decide) fun _ => hblank
  have hcomma : headIs (· == ',') (printGroup s.group ++ named) = false :=
    headIs_group s (by decide) (by decide) fun _ =>
      hends (· == ',') (by decide) (by decide) (by decide)
  have hword : s.defaultName = none → headIs Text.isWord (printGroup s.group ++ named) = false := by
    intro hdefault
    refine headIs_group s (by decide) (by decide) fun hnone => ?_
    have heffect : s.isSideEffect = true := by simp [ImportStatement.isSideEffect, hdefault, hnone]
    rw [hnamed, heffect]
    exact hmark Text.isWord (by decide) (by decide)
  have hdefault := headIs_isBlank_default s.group.isSome s.defaultName hgroup
  have hqualified : headIs Text.isBlank ((if s.isTypeOnly then "type ".toList else []) ++
      (printDefault s.group.isSome s.defaultName ++ (printGroup s.group ++ named))) = false := by
    split
    · simp [headIs]
      decide
    · exact hdefault
  have hlead := (((reads_text "import" _).seq (reads_blanks1 hqualified)).seq
    (reads_typeClause s.isTypeOnly hdefault fun _ =>
      takeWhile_default s.group.isSome s.defaultName hword)).seq
    (reads_defaultClause s.group.isSome s.defaultName hgroup hcomma hword)
  have hnames := reads_group s hlead hblank (hends (· == '*') (by decide) (by decide) (by decide))
    (hends (· == '\x7b') (by decide) (by decide) (by decide))
  have hall := (((hnames.seq (reads_fromClause s.isSideEffect
    (hmark Text.isBlank (by decide) (by decide)) (hmark (· == 'f') (by decide) (by decide)))).seq
    (reads_quote s.mark source)).seq ((reads_origin s.origin s.mark rest).capture 5)).seq
    (reads_quote s.mark rest)
  have himport : "import ".toList = "import".toList ++ [' '] := by simp
  refine hall.of_eq ?_ ?_
  · unfold ImportStatement.printBody
    rw [himport]
  · unfold ImportStatement.captured
    simp only [append_assoc, cons_append, nil_append, append_nil]

end Import

end Source

end SiteAtlas
