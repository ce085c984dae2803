import SiteAtlas.Source.Props

/-!
# Members of a type literal

A type literal is cut at semicolons, line breaks and commas outside brackets. Only open brackets
are counted, so a text goes through in one piece if its brackets are closed and its commas stand in
them (`Closed.cutMembers_append`). Kinds of brackets do not matter, and a `>` after `=` is the head
of an arrow.
-/

namespace SiteAtlas.Source.Props

open List

variable {inside : Bool} {text : List Char} {c : Char}

/-- Whether a character opens a bracket. -/
def isOpener (c : Char) : Bool :=
  c == '(' || c == '[' || c == '<'

/-- Whether a character closes a bracket. -/
def isCloser (c : Char) : Bool :=
  c == ')' || c == ']' || c == '>'

/-- Whether a character is no bracket and separates nothing. -/
def isOrdinary (c : Char) : Bool :=
  !(isOpener c || isCloser c || c == ',' || c == ';' || c == '\n')

/-- The brackets of a text are closed within it. Commas stand within brackets, `inside` meaning the
whole text, and closing brackets that close nothing outside. -/
inductive Closed : Bool → List Char → Prop
  | nil {inside : Bool} : Closed inside []
  | ordinary {inside : Bool} {c : Char} {rest : List Char} (hc : isOrdinary c = true)
    (h : Closed inside rest) : Closed inside (c :: rest)
  | arrow {inside : Bool} {rest : List Char} (h : Closed inside rest) :
    Closed inside ('=' :: '>' :: rest)
  | comma {rest : List Char} (h : Closed true rest) : Closed true (',' :: rest)
  | closer {c : Char} {rest : List Char} (hc : isCloser c = true) (h : Closed false rest) :
    Closed false (c :: rest)
  | group {inside : Bool} {opener closer : Char} {content rest : List Char}
    (hopener : isOpener opener = true) (hcloser : isCloser closer = true)
    (harrow : closer = '>' → content.getLast? ≠ some '=') (hcontent : Closed true content)
    (h : Closed inside rest) : Closed inside (opener :: (content ++ closer :: rest))

/-- Ordinary characters are closed. -/
theorem closed_of_ordinary (h : ∀ c ∈ text, isOrdinary c = true) : Closed inside text := by
  induction text with
  | nil => exact .nil
  | cons c rest ih =>
    obtain ⟨hc, hrest⟩ := forall_mem_cons.mp h
    exact .ordinary hc (ih hrest)

/-- An ordinary text is closed. -/
theorem closed_string (s : String) (h : s.toList.all isOrdinary = true) : Closed inside s.toList :=
  closed_of_ordinary (all_eq_true.mp h)

/-- Closed texts can follow each other. -/
theorem Closed.append {more : List Char} (h : Closed inside text) (hmore : Closed inside more) :
    Closed inside (text ++ more) := by
  induction h with
  | nil => exact hmore
  | ordinary hc _ ih => exact .ordinary hc (ih hmore)
  | arrow _ ih => exact .arrow (ih hmore)
  | comma _ ih => exact .comma (ih hmore)
  | closer hc _ ih => exact .closer hc (ih hmore)
  | group hopener hcloser harrow hcontent _ _ ih =>
    rw [cons_append, append_assoc, cons_append]
    exact .group hopener hcloser harrow hcontent (ih hmore)

/-- Word characters are ordinary. -/
theorem isOrdinary_of_isWord (h : Text.isWord c = true) : isOrdinary c = true := by
  have hne (other : Char) (hother : Text.isWord other = false) : (c == other) = false := by
    rw [beq_eq_false_iff_ne]
    rintro rfl
    exact Bool.noConfusion (h.symm.trans hother)
  simp only [isOrdinary, isOpener, isCloser]
  rw [hne '(' (by decide), hne '[' (by decide), hne '<' (by decide), hne ')' (by decide),
    hne ']' (by decide), hne '>' (by decide), hne ',' (by decide), hne ';' (by decide),
    hne '\n' (by decide)]
  rfl

/-- The depth after a character by its kind. -/
theorem depthAfter_eq (s : SplitState) (c : Char) : s.depthAfter c = if isOpener c then s.depth + 1
    else if isCloser c && !(c == '>' && s.last == some '=') then s.depth - 1 else s.depth := by
  unfold SplitState.depthAfter isOpener isCloser
  by_cases hc : c = '>'
  · subst hc
    rfl
  · simp [hc]

/-- What closes a bracket opens none. -/
theorem isOpener_eq_false (h : isCloser c = true) : isOpener c = false := by
  simp only [isCloser, Bool.or_eq_true, beq_iff_eq] at h
  rcases h with (rfl | rfl) | rfl <;> rfl

/-- An ordinary character is no bracket. -/
theorem not_bracket (h : isOrdinary c = true) : isOpener c = false ∧ isCloser c = false := by
  simp only [isOrdinary, Bool.not_eq_true', Bool.or_eq_false_iff] at h
  exact ⟨h.1.1.1.1, h.1.1.1.2⟩

/-- Brackets and ordinary characters separate nothing. -/
theorem isSeparator_eq_false (h : isOpener c = true ∨ isCloser c = true ∨ isOrdinary c = true)
    (depth : Nat) : isSeparator depth c = false := by
  have hne (other : Char) (hother : isOpener other = false ∧ isCloser other = false ∧
      isOrdinary other = false) : (c == other) = false := by
    rw [beq_eq_false_iff_ne]
    rintro rfl
    simp [hother] at h
  rw [isSeparator, hne ';' (by decide), hne '\n' (by decide), hne ',' (by decide)]
  rfl

/-- There is always a last member. -/
theorem cutMembers_ne_nil (s : SplitState) (text : List Char) : cutMembers s text ≠ [] := by
  cases text with
  | nil => exact cons_ne_nil _ _
  | cons c rest =>
    rw [cutMembers]
    split
    · exact cons_ne_nil _ _
    · split <;> exact cons_ne_nil _ _

/-- A character that separates nothing goes to the first member. -/
theorem cutMembers_cons {s : SplitState} (h : isSeparator (s.depthAfter c) c = false)
    (rest : List Char) : cutMembers s (c :: rest) =
      (cutMembers ⟨s.depthAfter c, some c⟩ rest).modifyHead (c :: ·) := by
  rw [cutMembers]
  simp only [h, Bool.false_eq_true, if_false]
  cases hparts : cutMembers ⟨s.depthAfter c, some c⟩ rest with
  | nil => exact absurd hparts (cutMembers_ne_nil _ _)
  | cons part others => rfl

/-- What comes last in a text that is not empty. -/
theorem getLast?_cons_or (c : Char) (tail : List Char) (last : Option Char) :
    (c :: tail).getLast?.or last = tail.getLast?.or (some c) := by
  rw [getLast?_cons, Option.some_or]
  cases tail.getLast? <;> rfl

/-- A character that keeps the depth joins the first member. -/
theorem cutMembers_keep {depth : Nat} {last : Option Char} {tail rest : List Char}
    (hkept : SplitState.depthAfter ⟨depth, last⟩ c = depth)
    (hseparator : isSeparator depth c = false) (h : cutMembers ⟨depth, some c⟩ (tail ++ rest) =
      (cutMembers ⟨depth, tail.getLast?.or (some c)⟩ rest).modifyHead (tail ++ ·)) :
    cutMembers ⟨depth, last⟩ (c :: tail ++ rest) =
      (cutMembers ⟨depth, (c :: tail).getLast?.or last⟩ rest).modifyHead (c :: tail ++ ·) := by
  rw [cons_append, cutMembers_cons (by rw [hkept]; exact hseparator), hkept, h,
    getLast?_cons_or, modifyHead_modifyHead]
  rfl

/-- A closing bracket leads back to the depth of its opening one. -/
theorem depthAfter_group {opener closer : Char} {content : List Char}
    (hopener : isOpener opener = true) (hcloser : isCloser closer = true)
    (harrow : closer = '>' → content.getLast? ≠ some '=') (depth : Nat) :
    SplitState.depthAfter ⟨depth + 1, content.getLast?.or (some opener)⟩ closer = depth := by
  have hnot : (closer == '>' && content.getLast?.or (some opener) == some '=') = false := by
    rw [Bool.and_eq_false_imp, beq_iff_eq, beq_eq_false_iff_ne]
    intro hangle hequals
    rcases Option.or_eq_some_iff.mp hequals with hlast | ⟨-, hlast⟩
    · exact harrow hangle hlast
    · rw [Option.some.inj hlast] at hopener
      exact absurd hopener (by decide)
  rw [depthAfter_eq, isOpener_eq_false hcloser, hcloser, hnot]
  rfl

/-- A closed text goes to the first member, and keeps the depth. -/
theorem Closed.cutMembers_append (h : Closed inside text) {depth : Nat}
    (hdepth : inside = true ↔ depth ≠ 0) (last : Option Char) (rest : List Char) :
    cutMembers ⟨depth, last⟩ (text ++ rest) =
      (cutMembers ⟨depth, text.getLast?.or last⟩ rest).modifyHead (text ++ ·) := by
  induction h generalizing depth last rest with
  | nil => cases hparts : cutMembers ⟨depth, last⟩ rest <;> simp [hparts]
  | ordinary hc _ ih =>
    obtain ⟨hopener, hcloser⟩ := not_bracket hc
    exact cutMembers_keep (by simp [depthAfter_eq, hopener, hcloser])
      (isSeparator_eq_false (.inr (.inr hc)) depth) (ih hdepth _ rest)
  | arrow _ ih => exact cutMembers_keep rfl rfl (cutMembers_keep rfl rfl (ih hdepth _ rest))
  | comma _ ih =>
    have hopen : depth ≠ 0 := hdepth.mp rfl
    exact cutMembers_keep rfl (by simp [isSeparator, hopen]) (ih hdepth _ rest)
  | closer hc _ ih =>
    obtain rfl : depth = 0 := by simpa using hdepth
    refine cutMembers_keep ?_ (isSeparator_eq_false (.inr (.inl hc)) 0) (ih hdepth _ rest)
    simp [depthAfter_eq, isOpener_eq_false hc]
  | @group inside opener closer content tail hopener hcloser harrow _ _ ihcontent ih =>
    have hopened : SplitState.depthAfter ⟨depth, last⟩ opener = depth + 1 := by
      simp [depthAfter_eq, hopener]
    have hlast : (opener :: (content ++ closer :: tail)).getLast?.or last =
        tail.getLast?.or (some closer) := by
      rw [getLast?_cons_or, getLast?_append, Option.or_assoc, getLast?_cons_or]
    rw [cons_append, append_assoc, cons_append,
      cutMembers_cons (isSeparator_eq_false (.inl hopener) _), hopened,
      ihcontent (by simp) (some opener),
      cutMembers_cons (isSeparator_eq_false (.inr (.inl hcloser)) _),
      depthAfter_group hopener hcloser harrow, ih hdepth (some closer) rest, hlast]
    simp [modifyHead_modifyHead, Function.comp_def]

/-- A closed member ends at a separator. -/
theorem Closed.cutMembers_separator {member : List Char} (h : Closed false member)
    (hc : c = ';' ∨ c = '\n' ∨ c = ',') (last : Option Char) (rest : List Char) :
    cutMembers ⟨0, last⟩ (member ++ c :: rest) = member :: cutMembers ⟨0, some c⟩ rest := by
  rw [h.cutMembers_append (by simp)]
  rcases hc with rfl | rfl | rfl <;> simp [cutMembers, isSeparator, SplitState.depthAfter]

/-- A closed member ends with the text. -/
theorem Closed.cutMembers_end {member : List Char} (h : Closed false member)
    (last : Option Char) : cutMembers ⟨0, last⟩ member = [member] := by
  have hzero : false = true ↔ 0 ≠ 0 := by simp
  have hall := h.cutMembers_append hzero last []
  simpa [cutMembers] using hall

/-- Members with a separator after each but the last. -/
def joinMembers : List (List Char) → List Char → List Char
  | member :: members, c :: separators => member ++ c :: joinMembers members separators
  | members, _ => members.flatten

/-- One character is a separator or begins the first member. -/
theorem cutMembers_cons_cases (s : SplitState) (c : Char) (rest : List Char) :
    ∃ member members, cutMembers ⟨s.depthAfter c, some c⟩ rest = member :: members ∧
      ((c ∈ [';', '\n', ','] ∧ cutMembers s (c :: rest) = [] :: member :: members) ∨
        (';' ≠ c ∧ '\n' ≠ c ∧ cutMembers s (c :: rest) = (c :: member) :: members)) := by
  obtain ⟨member, members, hparts⟩ := exists_cons_of_ne_nil
    (cutMembers_ne_nil ⟨s.depthAfter c, some c⟩ rest)
  refine ⟨member, members, hparts, ?_⟩
  cases hc : isSeparator (s.depthAfter c) c with
  | true =>
    refine .inl ⟨?_, by rw [cutMembers, hparts]; exact if_pos hc⟩
    simp only [isSeparator, Bool.or_eq_true, Bool.and_eq_true, beq_iff_eq] at hc
    rcases hc with (rfl | rfl) | ⟨rfl, -⟩ <;> simp
  | false =>
    refine .inr ⟨?_, ?_, by rw [cutMembers_cons hc, hparts, modifyHead_cons]⟩
    · rintro rfl
      cases hc
    · rintro rfl
      cases hc

/-- Members joined again: one separator was between two. -/
theorem exists_joinMembers (s : SplitState) (body : List Char) :
    ∃ separators : List Char, (cutMembers s body).length = separators.length + 1 ∧
      (∀ c ∈ separators, c ∈ [';', '\n', ',']) ∧
      joinMembers (cutMembers s body) separators = body := by
  induction body generalizing s with
  | nil => exact ⟨[], rfl, forall_mem_nil _, rfl⟩
  | cons c rest ih =>
    obtain ⟨separators, hlength, hkind, hjoin⟩ := ih ⟨s.depthAfter c, some c⟩
    obtain ⟨member, members, hparts, ⟨hc, hcut⟩ | ⟨-, -, hcut⟩⟩ := cutMembers_cons_cases s c rest
    · rw [hparts] at hlength hjoin
      refine ⟨c :: separators, ?_, forall_mem_cons.mpr ⟨hc, hkind⟩, ?_⟩
      · rw [hcut, length_cons, hlength, length_cons]
      · rw [hcut, joinMembers, hjoin, nil_append]
    · rw [hparts] at hlength hjoin
      refine ⟨separators, by rwa [hcut], hkind, ?_⟩
      rw [hcut, ← hjoin]
      cases separators <;> rfl

/-- No member holds a semicolon or a line break. -/
theorem not_mem_of_mem_cutMembers (s : SplitState) (body : List Char) :
    ∀ member ∈ cutMembers s body, ';' ∉ member ∧ '\n' ∉ member := by
  induction body generalizing s with
  | nil => simp [cutMembers]
  | cons c rest ih =>
    have hrest := ih ⟨s.depthAfter c, some c⟩
    obtain ⟨member, members, hparts, ⟨-, hcut⟩ | ⟨hsemicolon, hbreak, hcut⟩⟩ :=
      cutMembers_cons_cases s c rest
    · rw [hcut, ← hparts]
      exact forall_mem_cons.mpr ⟨⟨not_mem_nil, not_mem_nil⟩, hrest⟩
    · rw [hparts, forall_mem_cons] at hrest
      obtain ⟨⟨hfirst, hline⟩, hothers⟩ := hrest
      rw [hcut]
      exact forall_mem_cons.mpr ⟨⟨not_mem_cons_of_ne_of_not_mem hsemicolon hfirst,
        not_mem_cons_of_ne_of_not_mem hbreak hline⟩, hothers⟩

/-- Closed members that were joined are cut as they were. -/
theorem cutMembers_joinMembers {members : List (List Char)} {separators : List Char}
    (hclosed : ∀ member ∈ members, Closed false member)
    (hseparators : ∀ c ∈ separators, c ∈ [';', '\n', ','])
    (hlength : members.length = separators.length + 1) (last : Option Char) :
    cutMembers ⟨0, last⟩ (joinMembers members separators) = members := by
  induction separators generalizing members last with
  | nil =>
    obtain ⟨member, rfl⟩ := length_eq_one_iff.mp hlength
    have hmember : joinMembers [member] [] = member := flatten_singleton
    rw [hmember, (hclosed member (by simp)).cutMembers_end]
  | cons c separators ih =>
    obtain ⟨member, members, rfl⟩ := exists_cons_of_length_eq_add_one hlength
    obtain ⟨hmember, hmembers⟩ := forall_mem_cons.mp hclosed
    obtain ⟨hc, hothers⟩ := forall_mem_cons.mp hseparators
    rw [joinMembers, hmember.cutMembers_separator (by simpa using hc),
      ih hmembers hothers (Nat.succ.inj hlength)]

/-- Cutting loses no text: the body is its members, none with a semicolon or a line break, with one
separator between two, and those are kept that are not blank. Closed members are found as they
were, whatever separates them. -/
theorem members_cut_at_separators :
    (∀ body, ∃ members separators, members.length = separators.length + 1 ∧
      (∀ c ∈ separators, c ∈ [';', '\n', ',']) ∧ joinMembers members separators = body ∧
      splitMembers body = members.filter (!Text.isAllBlank ·) ∧
      ∀ member ∈ members, ';' ∉ member ∧ '\n' ∉ member) ∧
    ∀ members separators, (∀ member ∈ members, Closed false member ∧
        Text.isAllBlank member = false) →
      (∀ c ∈ separators, c ∈ [';', '\n', ',']) → separators.length = members.length - 1 →
      splitMembers (joinMembers members separators) = members := by
  constructor
  · intro body
    obtain ⟨separators, hlength, hkind, hjoin⟩ := exists_joinMembers ⟨0, none⟩ body
    exact ⟨_, separators, hlength, hkind, hjoin, rfl, not_mem_of_mem_cutMembers _ body⟩
  · intro members separators hmembers hseparators hlength
    have hkept : members.filter (!Text.isAllBlank ·) = members :=
      filter_eq_self.mpr fun member hmember => by simp [(hmembers member hmember).2]
    cases members with
    | nil => cases separators <;> cases hlength; rfl
    | cons member members =>
      rw [splitMembers, cutMembers_joinMembers (fun other hother => (hmembers other hother).1)
        hseparators (congrArg (· + 1) hlength.symm), hkept]

/-- Commas in brackets and heads of arrows stay in their members. -/
theorem members_cut_at_separators_arrow :
    (∀ member ∈ ["a[b,c]".toList, "d=>e".toList], Closed false member ∧
      Text.isAllBlank member = false) ∧
    splitMembers "a[b,c],d=>e".toList = ["a[b,c]".toList, "d=>e".toList] := by
  have hcontent : Closed true ['b', ',', 'c'] :=
    .ordinary rfl (.comma (.ordinary rfl .nil))
  have hbrackets : Closed false ('[' :: (['b', ',', 'c'] ++ [']'])) :=
    .group rfl rfl (by decide) hcontent .nil
  have hmembers : ∀ member ∈ ["a[b,c]".toList, "d=>e".toList], Closed false member ∧
      Text.isAllBlank member = false :=
    forall_mem_cons.mpr ⟨⟨.ordinary rfl hbrackets, rfl⟩, forall_mem_singleton.mpr
      ⟨.ordinary rfl (.arrow (.ordinary rfl .nil)), rfl⟩⟩
  exact ⟨hmembers, members_cut_at_separators.2 _ [','] hmembers (by simp) rfl⟩

end SiteAtlas.Source.Props
