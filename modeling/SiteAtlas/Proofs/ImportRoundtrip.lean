import SiteAtlas.Proofs.FileRoutes
import SiteAtlas.Proofs.PrintedImports

/-!
# Reading printed imports back

The text in the braces of a printed import is split into members, and each into qualifier, exported
name and local name. So the imports found in printed statements are the statements.
-/

namespace SiteAtlas

open List

variable (s : ImportStatement) (name : Identifier)

/-- Blanks around a text are trimmed, and nothing else. -/
theorem Text.trim_padded {before part after : List Char}
    (hbefore : ∀ x ∈ before, Text.isBlank x = true) (hafter : ∀ x ∈ after, Text.isBlank x = true)
    (hfirst : headIs Text.isBlank part = false) (hlast : headIs Text.isBlank part.reverse = false)
    (hne : part ≠ []) : Text.trim (before ++ part ++ after) = part := by
  have hdrop : ∀ {cs rest : List Char}, headIs Text.isBlank cs = false → cs ≠ [] →
      (cs ++ rest).dropWhile Text.isBlank = cs ++ rest := by
    intro cs rest hhead hcs
    obtain ⟨x, others, rfl⟩ := exists_cons_of_ne_nil hcs
    have hx : Text.isBlank x = false := hhead
    rw [cons_append, dropWhile_cons, hx]
    rfl
  rw [Text.trim, Text.trimWhile, Text.trimEndWhile, append_assoc,
    dropWhile_append_of_pos hbefore, hdrop hfirst hne, reverse_append,
    dropWhile_append_of_pos fun x hx => hafter x (mem_reverse.mp hx),
    ← append_nil part.reverse, hdrop hlast (by simpa using hne), append_nil,
    reverse_reverse]

/-- A text without the separator is its only part. -/
theorem Text.splitOn_of_not_mem {separator : Char} {cs : List Char} (h : separator ∉ cs) :
    Text.splitOn separator cs = [cs] := by
  induction cs with
  | nil => rfl
  | cons x cs ih =>
    rw [mem_cons, not_or] at h
    rw [Text.splitOn, if_neg (Ne.symm h.1), ih h.2]

namespace Source

/-- The trimmed parts of a list are the joined texts. -/
theorem map_trim_splitOn {parts : List (List Char)} (hne : parts ≠ [])
    (hparts : ∀ part ∈ parts, ',' ∉ part ∧ part ≠ [] ∧ headIs Text.isBlank part = false ∧
      headIs Text.isBlank part.reverse = false) :
    (Text.splitOn ',' (' ' :: Text.join ", ".toList parts ++ [' '])).map Text.trim = parts := by
  have hblank : ∀ x ∈ [' '], Text.isBlank x = true := by simp; decide
  induction parts with
  | nil => exact absurd rfl hne
  | cons part parts ih =>
    obtain ⟨hcomma, hpart, hfirst, hlast⟩ := hparts part mem_cons_self
    cases parts with
    | nil =>
      have htrim := Text.trim_padded hblank hblank hfirst hlast hpart
      rw [Text.join, Text.splitOn_of_not_mem (by simp [hcomma]), map_singleton]
      exact congrArg (fun part => [part]) htrim
    | cons next others =>
      have htrim : Text.trim ([' '] ++ part ++ []) = part :=
        Text.trim_padded hblank (forall_mem_nil _) hfirst hlast hpart
      have hjoin : ' ' :: Text.join ", ".toList (part :: next :: others) ++ [' '] =
          (' ' :: part) ++ ',' :: (' ' :: Text.join ", ".toList (next :: others) ++ [' ']) := by
        simp [Text.join]
      rw [hjoin, Text.splitOn_append_cons, Text.splitOn_of_not_mem (by simp [hcomma]),
        map_append, ih (by simp) fun other hother =>
          hparts other (mem_cons_of_mem part hother)]
      rw [append_nil] at htrim
      exact congrArg (· :: next :: others) htrim

/-- A member as it is read back. -/
def Specifier.member (s : Specifier) : Import.Member where
  name := s.name.text
  localName := s.localName.map (·.text)
  isType := s.isType

/-- After its name, a member ends or goes on with a blank. -/
theorem Specifier.takeWhile_printNames (s : Specifier) :
    s.printNames.takeWhile Text.isWord = s.name.text.toList := by
  unfold Specifier.printNames
  apply Import.takeWhile_identifier
  cases s.localName with
  | none => rfl
  | some name =>
    simp [headIs]
    decide

namespace Import

open Pattern

/-- Only a qualified member begins with the qualifier. -/
theorem isPrefixOf_print (s : Specifier) : "type ".toList.isPrefixOf s.print = s.isType := by
  unfold Specifier.print
  cases s.isType with
  | true =>
    rw [if_pos rfl, List.isPrefixOf_iff_prefix]
    exact prefix_append _ _
  | false =>
    rw [Bool.eq_false_iff]
    intro h
    obtain ⟨rest, hrest⟩ := List.isPrefixOf_iff_prefix.mp h
    have htype : ("type ".toList ++ rest).takeWhile Text.isWord = "type".toList := by
      have hsplit : "type ".toList ++ rest = "type".toList ++ (' ' :: rest) := by simp
      have hword : ∀ x ∈ "type".toList, Text.isWord x = true := by simp; decide
      have hblank : Text.isWord ' ' = false := by decide
      rw [hsplit, takeWhile_append_of_pos hword, takeWhile_cons, hblank]
      simp
    rw [hrest, if_neg Bool.false_ne_true, nil_append, s.takeWhile_printNames] at htype
    exact s.name.ne_type htype

/-- A member begins with no blank. -/
theorem headIs_isBlank_printNames (s : Specifier) : headIs Text.isBlank s.printNames = false := by
  unfold Specifier.printNames
  exact headIs_isBlank_identifier s.name _

/-- Nothing is taken away from a text within a larger one. -/
theorem piecesFrom_typeQualifier (x : Char) (before cs : List Char) (offset : Nat) :
    typeQualifier.piecesFrom 0 (x :: before) offset cs = cs.map .plain := by
  induction cs generalizing x before offset with
  | nil => rfl
  | cons y cs ih =>
    have hnone : typeQualifier.matchAt (x :: before) offset (y :: cs) = none := rfl
    rw [piecesFrom, hnone, map_cons, ← ih y (x :: before) (offset + 1)]

/-- The qualifier is taken away from the beginning of a member. -/
theorem eraseAll_typeQualifier {names : List Char} (h : headIs Text.isBlank names = false) :
    typeQualifier.eraseAll ("type ".toList ++ names) = names := by
  have hreads := (reads_text "type" ([' '] ++ names)).seq (reads_blanks1 h)
  obtain ⟨m, hmatch, htext, -⟩ := hreads.exists_matchAt [] 0
  have hstart : typeQualifier.matchAt [] 0 ("type".toList ++ [' '] ++ names) = some m := hmatch
  have hpieces := piecesFrom_hit (by simp) hstart htext
  have hsplit : "type ".toList = "type".toList ++ [' '] := by simp
  rw [hsplit, eraseAll, replaceAll, pieces, hpieces, reverse_append, reverse_singleton,
    singleton_append, cons_append, piecesFrom_typeQualifier, flatMap_cons,
    nil_append, flatMap_map]
  exact flatMap_singleton' names

/-- A renamed member is taken apart into its names. -/
theorem matchStart?_renamedMember (localName : Identifier) : ∃ m, renamedMember.matchStart?
        (name.text.toList ++ (" as ".toList ++ localName.text.toList)) = some m ∧
      m.group? 1 = some name.text.toList ∧ m.group? 2 = some localName.text.toList := by
  have hend : lastLineEnd.Reads [] [] [] := fun c hc =>
    ⟨c, fun k _ => by simp [lastLineEnd, run, Anchor.holds, hc], ⟨rfl, rfl⟩, rfl⟩
  have hlocal : word.Reads localName.text.toList ([] ++ []) [] := reads_word localName rfl
  have hname : word.Reads name.text.toList
      ([' '] ++ ("as".toList ++ ([' '] ++ (localName.text.toList ++ ([] ++ []))))) [] :=
    reads_word name rfl
  have hreads := (((((hname.capture 1).seq (reads_blanks1 rfl)).seq (reads_text "as" _)).seq
    (reads_blanks1 (headIs_isBlank_identifier localName _))).seq (hlocal.capture 2)).seq hend
  obtain ⟨m, hmatch, -, hgroups⟩ := hreads.exists_matchAt [] 0
  have hsplit : name.text.toList ++ (" as ".toList ++ localName.text.toList) =
      name.text.toList ++ [' '] ++ "as".toList ++ [' '] ++ localName.text.toList ++ [] ++ [] := by
    simp
  refine ⟨m, ?_, hgroups 1, hgroups 2⟩
  rw [hsplit]
  exact hmatch

/-- A plain name is not renamed. -/
theorem matchStart?_renamedMember_eq_none : renamedMember.matchStart? name.text.toList = none := by
  have hword : word.ReadsOnly (Text.isWord · = true) := fun _ h => h
  rw [Option.eq_none_iff_forall_ne_some]
  intro m hm
  obtain ⟨d, hreach, -⟩ := reaches_of_matchAt _ _ _ _ m hm
  -- After the first word comes a blank, and no identifier holds one.
  obtain ⟨_, ⟨_, ⟨_, ⟨_, ⟨e, ⟨_, ⟨_, rfl⟩, e', hname, rfl⟩, hblanks⟩, -⟩, -⟩, -⟩, -⟩ := hreach
  obtain ⟨read, hpast, -⟩ := hword.pastOnly _ _ _ hname
  obtain ⟨x, rest, hafter, hx⟩ := begins_blanks1.exists_cons hblanks
  have hmem : x ∈ name.text.toList := by
    have hwhole : name.text.toList = read ++ (x :: rest) := by
      rw [← hafter]
      exact hpast.after
    simp [hwhole]
  rw [Text.isBlank_eq_false_of_isWord (name.isWord x hmem)] at hx
  cases hx

/-- A printed member is read back. -/
theorem ofText_print (s : Specifier) : Member.ofText s.print = s.member := by
  have hnames : (if s.isType = true then typeQualifier.eraseAll s.print else s.print) =
      s.printNames := by
    unfold Specifier.print
    cases s.isType with
    | true => exact eraseAll_typeQualifier (headIs_isBlank_printNames s)
    | false => rfl
  unfold Member.ofText
  dsimp only
  rw [isPrefixOf_print, hnames]
  unfold Specifier.printNames Specifier.member
  cases s.localName with
  | none =>
    dsimp only
    rw [append_nil, matchStart?_renamedMember_eq_none, String.ofList_toList]
    rfl
  | some localName =>
    obtain ⟨m, hmatch, hname, hlocal⟩ := matchStart?_renamedMember s.name localName
    dsimp only
    rw [hmatch]
    simp [Match.groupString, Match.group, hname, hlocal]

/-- No identifier ends with a blank. -/
theorem headIs_isBlank_reverse (rest : List Char) :
    headIs Text.isBlank (name.text.toList.reverse ++ rest) = false :=
  headIs_isBlank_word (by simpa using name.ne_nil)
    (fun x hx => name.isWord x (mem_reverse.mp hx)) rest

/-- A printed member begins and ends with a word, without commas. -/
theorem trimmed_print (s : Specifier) : ',' ∉ s.print ∧ s.print ≠ [] ∧
    headIs Text.isBlank s.print = false ∧ headIs Text.isBlank s.print.reverse = false := by
  refine ⟨fun hmem => ?_, ?_, ?_, ?_⟩
  · have hcomma := s.isWord_of_mem_print hmem
    exact absurd hcomma (by decide)
  · unfold Specifier.print Specifier.printNames
    intro hnil
    exact s.name.ne_nil (append_eq_nil_iff.mp (append_eq_nil_iff.mp hnil).2).1
  · unfold Specifier.print
    split
    · simp [headIs]
      decide
    · exact headIs_isBlank_printNames s
  · unfold Specifier.print Specifier.printNames
    rw [reverse_append]
    cases s.localName with
    | none =>
      rw [append_nil]
      exact headIs_isBlank_reverse s.name _
    | some name =>
      rw [reverse_append, reverse_append, append_assoc, append_assoc]
      exact headIs_isBlank_reverse name _

/-- Printed members are read back. -/
theorem members_printMembers (specifiers : List Specifier) :
    members (printMembers specifiers) = specifiers.map Specifier.member := by
  have hcomment : comment.eraseAll (printMembers specifiers) = printMembers specifiers := by
    have hbegins : comment.Begins (· == '/') := ⟨fun _ h => h, fun _ h => h⟩
    refine eraseAll_eq_self hbegins fun x hx => ?_
    have hslash : x ≠ '/' := ne_of_mem_printMembers hx (by decide) (by decide) (by decide)
    simpa using hslash
  rw [members, hcomment]
  cases specifiers with
  | nil => rfl
  | cons first others =>
    set parts := (first :: others).map Specifier.print with hdefinition
    have htrimmed : ∀ part ∈ parts, ',' ∉ part ∧ part ≠ [] ∧ headIs Text.isBlank part = false ∧
        headIs Text.isBlank part.reverse = false := by
      intro part hpart
      obtain ⟨s, -, rfl⟩ := mem_map.mp hpart
      exact trimmed_print s
    have hprinted : printMembers (first :: others) = ' ' :: Text.join ", ".toList parts ++ [' '] :=
      if_neg Bool.false_ne_true
    have hkept : parts.filter (!·.isEmpty) = parts := by
      rw [filter_eq_self]
      intro part hpart
      simpa using (htrimmed part hpart).2.1
    rw [hprinted, map_trim_splitOn (by simp [hdefinition]) htrimmed, hkept, hdefinition, map_map]
    exact map_congr_left fun s _ => ofText_print s

/-- What was captured of a statement tells its clauses. -/
theorem lookup_captured :
    s.captured.lookup 1 = (if s.isTypeOnly then some "type".toList else none) ∧
      s.captured.lookup 2 = s.defaultName.map (·.text.toList) ∧
      s.captured.lookup 3 = s.namespaceName.map (·.text.toList) ∧
      s.captured.lookup 4 = s.listed?.map printMembers ∧
      s.captured.lookup 5 = some s.origin.text.toList := by
  unfold ImportStatement.captured
  cases s.listed? <;> cases s.namespaceName <;> cases s.defaultName <;> cases s.isTypeOnly <;>
    exact ⟨rfl, rfl, rfl, rfl, rfl⟩

/-- The local names of members are put into a table in order. -/
theorem foldl_member (specifiers : List Specifier) (table : Keyed String) :
    (specifiers.map Specifier.member).foldl (fun table member => match member.localName with
        | some localName => table.put member.name localName
        | none => table) table =
      (specifiers.filterMap fun m => m.localName.map fun name => (m.name.text, name.text)).foldl
        (fun table entry => table.put entry.1 entry.2) table := by
  induction specifiers generalizing table with
  | nil => rfl
  | cons s specifiers ih =>
    rw [map_cons, foldl_cons, ih, filterMap_cons]
    unfold Specifier.member
    cases s.localName with
    | none => rfl
    | some name => rfl

/-- The members read from braces are the statement's. -/
theorem members_listed :
    members ((s.listed?.map printMembers).getD []) = s.members.map Specifier.member := by
  unfold ImportStatement.members
  cases s.listed? with
  | none => rfl
  | some specifiers => exact members_printMembers specifiers

/-- A statement without any clause is there for its effects. -/
theorem isSideEffect_eq : s.isSideEffect =
    (s.defaultName.isNone && s.namespaceName.isNone && s.listed?.isNone) := by
  unfold ImportStatement.isSideEffect ImportStatement.namespaceName ImportStatement.listed?
  cases s.group with
  | none => simp
  | some group => cases group <;> simp

/-- A match of a statement declares what it does. -/
theorem ofMatch_eq_record {s : ImportStatement} {m : Match}
    (h : ∀ index, m.group? index = s.captured.lookup index) : ofMatch m = s.record := by
  obtain ⟨htype, hdefault, hnamespace, hlisted, hsource⟩ := lookup_captured s
  have horigin : m.groupString 5 = s.origin.text := by
    simp [Match.groupString, Match.group, h, hsource]
  have hqualified : (if s.isTypeOnly then some "type".toList else none).isSome = s.isTypeOnly := by
    cases s.isTypeOnly <;> rfl
  have heffect := isSideEffect_eq s
  unfold ofMatch
  rw [horigin, h 1, h 2, h 3, h 4, htype, hdefault, hnamespace, hlisted]
  dsimp only
  split
  · rename_i hnoDefault hnoNamespace hnoList
    rw [Option.map_eq_none_iff] at hnoDefault hnoNamespace hnoList
    have hmembers : s.members = [] := by rw [ImportStatement.members, hnoList, Option.getD_none]
    unfold ImportStatement.record ImportStatement.names ImportStatement.renamings
    rw [hqualified, heffect, hnoDefault, hnoNamespace, hnoList, hmembers]
    rfl
  · rename_i hsome
    have hnamed : s.isSideEffect = false := by
      rw [heffect, Bool.eq_false_iff]
      intro hnone
      simp only [Bool.and_eq_true, Option.isNone_iff_eq_none] at hnone
      simp [hnone] at hsome
    unfold ImportStatement.record ImportStatement.names ImportStatement.renamings
    rw [hqualified, hnamed, members_listed, Import.mk.injEq]
    refine ⟨?_, rfl, rfl, foldl_member s.members [], ?_, ?_, rfl, rfl, ?_, ?_⟩
    · cases s.defaultName <;> cases s.namespaceName <;> simp [Specifier.member]
    · rw [Option.isSome_map]
    · rw [Option.isSome_map]
    · cases s.namespaceName <;> simp
    · simp [filter_map, Specifier.member, Function.comp_def]

/-- A statement begins with the letter of its first word. -/
theorem begins_statement : statement.Begins (· == 'i') :=
  fun _ h => h

/-- Printed statements are found one after the other. -/
theorem map_ofMatch_piecesFrom (statements : List ImportStatement) (before : List Char)
    (offset : Nat) : ((statement.piecesFrom 0 before offset
        (statements.flatMap ImportStatement.print)).filterMap Piece.hit?).map ofMatch =
      statements.map ImportStatement.record := by
  induction statements generalizing before offset with
  | nil => rfl
  | cons s statements ih =>
    set others := statements.flatMap ImportStatement.print with hothers
    obtain ⟨m, hmatch, htext, hgroups⟩ :=
      (reads_statement s (";\n".toList ++ others)).exists_matchAt before offset
    have hne : s.printBody ≠ [] :=
      append_ne_nil_of_right_ne_nil _ (cons_ne_nil s.mark.char [])
    have hend : ∀ x ∈ ";\n".toList, (x == 'i') = false := by simp
    have hplain : (";\n".toList.map Piece.plain).filterMap Piece.hit? = [] := by
      rw [filterMap_map]
      exact filterMap_none _
    rw [flatMap_cons, ImportStatement.print, append_assoc,
      piecesFrom_hit hne hmatch htext, piecesFrom_plain begins_statement hend]
    change (m :: (List.filterMap Piece.hit? (_ ++ _))).map ofMatch = _
    rw [filterMap_append, hplain, nil_append, map_cons, map_cons, ofMatch_eq_record hgroups, ih]

end Import

namespace ImportStatement

/-- The table of local names gives the last one of each member. -/
theorem get?_aliases (name : String) : s.record.aliases.get? name =
      ((s.renamings.filter fun entry => entry.1 == name).getLast?).map (·.2) := by
  unfold record
  dsimp only
  rw [get?_foldl_put, Keyed.get?_nil, Option.or_none]
  rfl

/-- The record has the names in braces. -/
theorem braceNames_record : s.record.braceNames = s.members.map (·.name.text) := by
  unfold Import.braceNames record names
  dsimp only
  cases s.defaultName <;> cases s.namespaceName <;> simp

/-- Without repeated names, a member is a type by its name. -/
theorem contains_typeNames {members : List Specifier} (h : (members.map (·.name.text)).Nodup)
    {m : Specifier} (hm : m ∈ members) :
    ((members.filter (·.isType)).map (·.name.text)).contains m.name.text = m.isType := by
  rw [Bool.eq_iff_iff, contains_iff_mem, mem_map]
  constructor
  · rintro ⟨other, hother, hname⟩
    obtain ⟨hmem, htype⟩ := mem_filter.mp hother
    rwa [← inj_on_of_nodup_map h hmem hm hname]
  · exact fun htype => ⟨m, mem_filter.mpr ⟨hm, htype⟩, rfl⟩

/-- Without repeated names, values are those of no types. -/
theorem valueNames_record {s : ImportStatement} (h : s.names.Nodup) :
    s.record.valueNames = s.valueNames := by
  unfold Import.valueNames valueNames record
  dsimp only
  rw [Bool.or_comm]
  split
  · rfl
  · unfold names at h ⊢
    generalize s.defaultName.toList ++ s.namespaceName.toList = leading at h ⊢
    rw [map_append, map_map] at h ⊢
    obtain ⟨-, hmembers, hapart⟩ := nodup_append.mp h
    set typeNames := (s.members.filter (·.isType)).map (·.name.text) with htypes
    have hleading : (leading.map (·.text)).filter (fun name => !typeNames.contains name) =
        leading.map (·.text) := by
      rw [filter_eq_self]
      intro name hname
      have hother : name ∉ typeNames := by
        intro hmem
        obtain ⟨m, hm, rfl⟩ := mem_map.mp hmem
        exact hapart _ hname _ (mem_map_of_mem (mem_of_mem_filter hm)) rfl
      simpa using hother
    rw [filter_append, hleading, filter_map, map_append, map_map]
    congr 2
    refine filter_congr fun m hm => ?_
    exact congrArg (!·) (contains_typeNames hmembers hm)

end ImportStatement

/-- Imports are read back from their printed form, in order and whole. -/
theorem extract_printed (statements : List ImportStatement) :
    Import.extract (statements.flatMap ImportStatement.print) =
        statements.map ImportStatement.record ∧
      (∀ s ∈ statements, s.record.braceNames = s.members.map (·.name.text) ∧
        ∀ name, s.record.aliases.get? name =
          ((s.renamings.filter fun entry => entry.1 == name).getLast?).map (·.2)) ∧
      ((∀ s ∈ statements, s.names.Nodup) →
        importedNames (Import.extract (statements.flatMap ImportStatement.print)) false =
          statements.flatMap ImportStatement.valueNames) := by
  have hextract : Import.extract (statements.flatMap ImportStatement.print) =
      statements.map ImportStatement.record := Import.map_ofMatch_piecesFrom statements [] 0
  refine ⟨hextract, fun s _ => ⟨s.braceNames_record, s.get?_aliases⟩, fun hnodup => ?_⟩
  have hall : (statements.map ImportStatement.record).filter (fun i => !false || i.isLocal) =
      statements.map ImportStatement.record := List.filter_true _
  rw [hextract, importedNames, hall, List.flatMap_map]
  exact List.flatMap_congr fun s hs => ImportStatement.valueNames_record (hnodup s hs)

/-- A name that is also the word before a source. -/
def fromName : Identifier := ⟨"from", by simp, by simp; decide, by simp⟩

/-- A name that begins like the qualifier of types. -/
def typedName : Identifier := ⟨"typed", by simp, by simp; decide, by simp⟩

/-- A name that is a keyword too. -/
def asName : Identifier := ⟨"as", by simp, by simp; decide, by simp⟩

/-- A file of the project. -/
def viewOrigin : Origin := ⟨"./view", by simp, by simp⟩

/-- Statements with names that look like words of statements. -/
def viewImports : List ImportStatement :=
  [⟨false, some fromName, some (.listed [⟨asName, some typedName, true⟩, ⟨typedName, none, false⟩]),
      viewOrigin, .single⟩,
    ⟨true, none, some (.all asName), viewOrigin, .double⟩,
    ⟨false, some typedName, none, viewOrigin, .single⟩,
    ⟨false, none, none, viewOrigin, .double⟩]

/-- Their names are told from the words around them. -/
theorem extract_printed_viewImports : (∀ s ∈ viewImports, s.names.Nodup) ∧
      importedNames (Import.extract (viewImports.flatMap ImportStatement.print)) false =
        ["from", "typed", "typed"] := by
  have hnodup : ∀ s ∈ viewImports, s.names.Nodup := by
    simp [viewImports, ImportStatement.names, ImportStatement.namespaceName,
      ImportStatement.members, ImportStatement.listed?, fromName, typedName, asName]
  exact ⟨hnodup, (extract_printed viewImports).2.2 hnodup⟩

end Source

end SiteAtlas
