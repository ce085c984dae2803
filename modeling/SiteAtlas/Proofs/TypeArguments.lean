import SiteAtlas.Proofs.NeededTexts
import SiteAtlas.Proofs.PrintedImports
import SiteAtlas.Source.Markup

/-!
# Type arguments taken for markup

A list of type arguments opens like an element. In a source where nothing else opens so, and
nothing structural tells of markup, two signals are ruled out by what stands before and within such
lists. The others count unless every list has several arguments: one argument alone is taken for an
element.
-/

namespace SiteAtlas

open List

namespace Pattern

variable {p : Pattern} {cs before after : List Char} {offset : Nat}

/-- A search finds a match if there is one anywhere from its start on. -/
theorem isSome_findFrom?_iff {passed : List Char} :
    (p.findFrom? passed offset cs).isSome = true ↔ ∃ before x rest, cs = before ++ x :: rest ∧
      (p.matchAt (before.reverse ++ passed) (offset + before.length)
        (x :: rest)).isSome = true := by
  induction cs generalizing passed offset with
  | nil => simp [findFrom?]
  | cons y cs ih =>
    have hshift (before : List Char) :
        before.reverse ++ y :: passed = (y :: before).reverse ++ passed ∧
          offset + 1 + before.length = offset + (y :: before).length := by
      simp [Nat.add_assoc, Nat.add_comm 1]
    rw [findFrom?, Option.isSome_or, Bool.or_eq_true, ih]
    constructor
    · rintro (hhere | ⟨before, x, rest, rfl, hlater⟩)
      · exact ⟨[], y, cs, rfl, hhere⟩
      · rw [(hshift before).1, (hshift before).2] at hlater
        exact ⟨y :: before, x, rest, rfl, hlater⟩
    · rintro ⟨_ | ⟨z, before⟩, x, rest, heq, hmatch⟩
      · obtain ⟨rfl, rfl⟩ := List.cons.inj heq
        exact .inl hmatch
      · obtain ⟨rfl, rfl⟩ := List.cons.inj heq
        rw [← (hshift before).1, ← (hshift before).2] at hmatch
        exact .inr ⟨before, x, rest, rfl, hmatch⟩

/-- A pattern occurs in a text if it matches somewhere there. -/
theorem occursIn_iff : p.occursIn cs = true ↔ ∃ before x rest, cs = before ++ x :: rest ∧
    (p.matchAt before.reverse before.length (x :: rest)).isSome = true := by
  rw [occursIn, find?, isSome_findFrom?_iff]
  simp only [append_nil, Nat.zero_add]

/-- What matches is spelled by the pattern. -/
theorem exists_spells_of_matchAt (h : (p.matchAt before offset after).isSome = true) :
    ∃ spelled rest, after = spelled ++ rest ∧ p.Spells spelled := by
  obtain ⟨m, hm⟩ := Option.isSome_iff_exists.mp h
  obtain ⟨d, hreach, -⟩ := p.reaches_of_matchAt before offset after m hm
  obtain ⟨spelled, hpast, hspells⟩ := exists_spells_of_reaches hreach
  exact ⟨spelled, d.after, hpast.after, hspells⟩

/-- An occurrence is spelled somewhere. -/
theorem exists_spells_of_occursIn (h : p.occursIn cs = true) :
    ∃ before spelled rest, cs = before ++ (spelled ++ rest) ∧ p.Spells spelled := by
  obtain ⟨before, x, rest, rfl, hmatch⟩ := occursIn_iff.mp h
  obtain ⟨spelled, rest, heq, hspells⟩ := exists_spells_of_matchAt hmatch
  exact ⟨before, spelled, rest, by rw [heq], hspells⟩

end Pattern

namespace Source.Markup

open Pattern

variable {content text before after : List Char} {letter : Char}

/-- An angle bracket before a capital begins type arguments. -/
def OpensOnlyTypes (content : List Char) : Prop :=
  ∀ before letter after, content = before ++ '<' :: letter :: after → letter.isUpper = true →
    (∃ x ∈ before.getLast?, Text.isWord x = true) ∧
      (typeArguments.matchAt before.reverse before.length ('<' :: letter :: after)).isSome = true

/-- An angle bracket stands before a capital letter. -/
def HasOpening (content : List Char) : Prop :=
  ∃ before letter after, content = before ++ '<' :: letter :: after ∧ letter.isUpper = true

/-- There is a list of one type argument. -/
def HasLoneArgument (content : List Char) : Prop :=
  ∃ before letter name after, content = before ++ '<' :: letter :: (name ++ '>' :: after) ∧
    letter.isUpper = true ∧ ∀ x ∈ name, Text.isWord x = true

/-- A tag begins with a capital. -/
theorem exists_of_spells_componentTag (h : componentTag.Spells text) :
    ∃ letter name, text = '<' :: letter :: name ∧ letter.isUpper = true ∧
      ∀ x ∈ name, Text.isWord x = true := by
  obtain ⟨_, name, rfl, ⟨_, _, rfl, hopen, letter, hletter, rfl⟩, hname⟩ := h
  rw [spells_char.mp hopen]
  exact ⟨letter, name, rfl, hletter, (spells_loop_one.mp hname).2⟩

/-- A list of type arguments is a name with others after commas. -/
theorem exists_of_spells_typeArguments (h : typeArguments.Spells text) :
    ∃ letter name others, text = '<' :: letter :: (name ++ (others ++ ['>'])) ∧
      (∀ x ∈ name, Text.isWord x = true) ∧ (others = [] ∨ ∃ more, others = ',' :: more) ∧
      '\x7b' ∉ others := by
  obtain ⟨_, _, rfl, ⟨tag, others, rfl, htag, hothers⟩, hclose⟩ := h
  obtain ⟨letter, name, rfl, -, hname⟩ := exists_of_spells_componentTag htag
  rw [spells_char.mp hclose]
  refine ⟨letter, name, others, by simp, hname, ?_, not_mem_of_spells (by decide) hothers⟩
  obtain ⟨n, -, hrepeats⟩ := hothers
  rw [Nat.zero_add] at hrepeats
  cases n with
  | zero => exact .inl hrepeats
  | succ n =>
    obtain ⟨_, rest, rfl, ⟨_, word, rfl, ⟨_, capital, rfl, ⟨_, gap, rfl, hcomma, -⟩, -⟩, -⟩, -⟩ :=
      hrepeats
    rw [spells_char.mp hcomma]
    exact .inr ⟨gap ++ capital ++ word ++ rest, by simp⟩

section Signals

variable (h : OpensOnlyTypes content)
include h

/-- What stands after an opening. -/
theorem OpensOnlyTypes.exists_list (hcontent : content = before ++ '<' :: letter :: after)
    (hletter : letter.isUpper = true) :
    ∃ name others rest, after = name ++ (others ++ '>' :: rest) ∧
      (∀ x ∈ name, Text.isWord x = true) ∧ (others = [] ∨ ∃ more, others = ',' :: more) ∧
      '\x7b' ∉ others := by
  obtain ⟨spelled, rest, heq, hspells⟩ := exists_spells_of_matchAt (h _ _ _ hcontent hletter).2
  obtain ⟨first, name, others, rfl, hname, hothers, hfree⟩ := exists_of_spells_typeArguments hspells
  obtain ⟨-, hafter⟩ := List.cons.inj (List.cons.inj heq).2
  exact ⟨name, others, rest, by simpa using hafter, hname, hothers, hfree⟩

/-- Type arguments are no assigned element: no word is before. -/
theorem OpensOnlyTypes.not_assigned : assignedElement.occursIn content = false := by
  rw [Bool.eq_false_iff]
  intro hoccurs
  obtain ⟨before, _, rest, hcontent, _, _, rfl, ⟨_, _, rfl, ⟨_, gap, rfl, ⟨start, _, rfl, -,
    hassign⟩, hgap⟩, hopen⟩, letter, hletter, rfl⟩ := exists_spells_of_occursIn hoccurs
  rw [spells_char.mp hassign, spells_char.mp hopen] at hcontent
  obtain ⟨⟨x, hlast, hword⟩, -⟩ := h (before ++ start ++ '=' :: gap) letter rest
    (by simp [hcontent]) hletter
  rw [getLast?_append_of_ne_nil _ (cons_ne_nil _ _)] at hlast
  rcases mem_cons.mp (mem_of_getLast? hlast) with rfl | hmem
  · exact absurd hword (by decide)
  · have hblank := (spells_loop_one.mp hgap).2 x hmem
    exact Bool.noConfusion ((Text.isBlank_eq_false_of_isWord hword).symm.trans hblank)

/-- Type arguments hold no brace, so nothing is spread. -/
theorem OpensOnlyTypes.not_spread : spreadProperties.occursIn content = false := by
  rw [Bool.eq_false_iff]
  intro hoccurs
  obtain ⟨before, _, rest, hcontent, _, close, rfl, ⟨_, word, rfl, ⟨_, dots, rfl, ⟨tag, gap, rfl,
    htag, hgap⟩, hdots⟩, -⟩, -⟩ := exists_spells_of_occursIn hoccurs
  have hclosed : '>' ∉ tag ++ gap := by
    rw [mem_append, not_or]
    exact ⟨not_mem_of_spells (by decide) htag, not_mem_of_spells (by decide) hgap⟩
  obtain ⟨letter, first, rfl, hletter, -⟩ := exists_of_spells_componentTag htag
  have hopen : content = before ++ '<' :: letter ::
      ((first ++ gap ++ ['\x7b']) ++ ("...".toList ++ word ++ close ++ rest)) := by
    rw [hcontent, spells_text.mp hdots]
    simp
  obtain ⟨name, others, after, hafter, hname, -, hfree⟩ := h.exists_list hopen hletter
  have hgapClosed : '>' ∉ first ++ gap ++ ['\x7b'] := by simp_all
  obtain ⟨z, hz, -⟩ := Text.exists_within hgapClosed (a := name ++ others) (b := after)
    (by rw [hafter, append_assoc])
  have hbrace : '\x7b' ∈ name ++ others := by simp [hz]
  rcases mem_append.mp hbrace with hmem | hmem
  · exact absurd (hname _ hmem) (by decide)
  · exact hfree hmem

/-- The lists of type arguments are all that opens. -/
theorem OpensOnlyTypes.occursIn_typeArguments_iff :
    typeArguments.occursIn content = true ↔ HasOpening content := by
  constructor
  · intro hoccurs
    obtain ⟨before, _, rest, hcontent, _, _, rfl, ⟨tag, others, rfl, htag, -⟩, -⟩ :=
      exists_spells_of_occursIn hoccurs
    obtain ⟨letter, name, rfl, hletter, -⟩ := exists_of_spells_componentTag htag
    exact ⟨before, letter, _, hcontent, hletter⟩
  · rintro ⟨before, letter, after, hcontent, hletter⟩
    exact occursIn_iff.mpr ⟨before, _, _, hcontent, (h _ _ _ hcontent hletter).2⟩

/-- Just the lists of one argument look like elements. -/
theorem OpensOnlyTypes.occursIn_componentElement_iff :
    componentElement.occursIn content = true ↔ HasLoneArgument content := by
  constructor
  · intro hoccurs
    obtain ⟨before, _, rest, hcontent, tag, _, rfl, htag, x, hx, rfl⟩ :=
      exists_spells_of_occursIn hoccurs
    obtain ⟨letter, first, rfl, hletter, hfirst⟩ := exists_of_spells_componentTag htag
    have hopen : content = before ++ '<' :: letter :: (first ++ x :: rest) := by simp [hcontent]
    obtain ⟨name, others, after, hafter, hname, hothers, -⟩ := h.exists_list hopen hletter
    have hend : Text.isWord x = false := by
      rw [Bool.eq_false_iff]
      intro hword
      simp only [Text.isBlank_eq_false_of_isWord hword, Bool.false_or, Bool.or_eq_true,
        beq_iff_eq] at hx
      rcases hx with rfl | rfl
      · exact absurd hword (by decide)
      · exact absurd hword (by decide)
    rcases hothers with rfl | ⟨more, rfl⟩
    · exact ⟨before, letter, name, after, by rw [hopen, hafter, nil_append], hletter, hname⟩
    · have hcomma : Text.isWord ',' = false := by decide
      obtain ⟨-, rfl, -⟩ := Text.eq_of_cut Text.isWord hfirst hname hend hcomma hafter
      exact absurd hx (by decide)
  · rintro ⟨before, letter, name, after, rfl, hletter, hname⟩
    have hreads : componentElement.Reads (['<'] ++ [letter] ++ name ++ ['>']) after [] :=
      (((reads_char '<' _).seq (reads_one hletter _)).seq (reads_many hname rfl)).seq
        (reads_one (by decide) _)
    obtain ⟨m, hm, -⟩ := hreads.exists_matchAt before.reverse before.length
    refine occursIn_iff.mpr ⟨before, '<', letter :: (name ++ '>' :: after), rfl, ?_⟩
    have htext : '<' :: letter :: (name ++ '>' :: after) =
        ['<'] ++ [letter] ++ name ++ ['>'] ++ after := by simp
    rw [htext, hm, Option.isSome_some]

end Signals

/-- Where only type arguments open and nothing structural tells of markup, a source is taken to
render markup if nothing opens at all or some list has one argument alone, and if then a reference
is forwarded, the library is imported and something opens outside strings, or a comment names the
function for markup. -/
theorem rendered_type_arguments (h : OpensOnlyTypes content)
    (hstructural : isStructural content = false) : isRendered content = true ↔
      '<' ∈ content ∧ (¬ HasOpening content ∨ HasLoneArgument content) ∧
        (forwardedReference.occursIn content = true ∨
          libraryImport.occursIn content = true ∧ tagInCode content = true ∨
          pragma.occursIn content = true) := by
  have hlists : onlyTypeArguments content = true ↔
      HasOpening content ∧ ¬ HasLoneArgument content := by
    rw [onlyTypeArguments, Bool.and_eq_true, h.occursIn_typeArguments_iff, Bool.not_eq_true',
      ← Bool.not_eq_true, h.occursIn_componentElement_iff]
  have hkept : onlyTypeArguments content = false ↔
      ¬ HasOpening content ∨ HasLoneArgument content := by
    rw [← Bool.not_eq_true, hlists, not_and_or, not_not]
  rw [isRendered, ← hkept, hstructural, h.not_assigned, h.not_spread]
  by_cases hopen : '<' ∈ content
  · cases hlist : onlyTypeArguments content with
    | true => simp [hopen]
    | false => simp [hopen, or_assoc]
  · simp [hopen]

/-- One angle bracket, which opens type arguments after a word. -/
theorem opensOnlyTypes_of_single {a b : List Char} (ha : '<' ∉ a) (hb : '<' ∉ b)
    (hword : ∃ x ∈ a.getLast?, Text.isWord x = true)
    (hmatch : (typeArguments.matchAt a.reverse a.length ('<' :: b)).isSome = true) :
    OpensOnlyTypes (a ++ '<' :: b) := by
  intro before letter after heq _
  obtain ⟨rfl, -, rfl⟩ := (append_cons_inj_of_notMem ha hb).mp heq
  exact ⟨hword, hmatch⟩

/-- A source with an array as its only type arguments. -/
def arraySource : List Char :=
  "import React from 'react';\nconst a: Array<T> = [];".toList

/-- The source counts as rendered. -/
theorem isRendered_arraySource : OpensOnlyTypes arraySource ∧ isStructural arraySource = false ∧
      isRendered arraySource = true := by
  refine ⟨?_, by decide +kernel, by decide +kernel⟩
  exact opensOnlyTypes_of_single (a := "import React from 'react';\nconst a: Array".toList)
    (b := "T> = [];".toList) (by decide) (by decide) ⟨'y', by decide, by decide⟩ (by decide +kernel)

/-- A source like it with a map. -/
def mapSource : List Char :=
  "import React from 'react';\nconst m = new Map<K, V>();".toList

/-- The statement at a source with a map. -/
theorem rendered_type_arguments_mapSource :
    OpensOnlyTypes mapSource ∧ isStructural mapSource = false ∧ isRendered mapSource = false := by
  have hopens : OpensOnlyTypes mapSource :=
    opensOnlyTypes_of_single (a := "import React from 'react';\nconst m = new Map".toList)
      (b := "K, V>();".toList) (by decide) (by decide) ⟨'p', by decide, by decide⟩
      (by decide +kernel)
  have hstructural : isStructural mapSource = false := by decide +kernel
  refine ⟨hopens, hstructural, ?_⟩
  rw [← Bool.not_eq_true, rendered_type_arguments hopens hstructural]
  have hopening : HasOpening mapSource := hopens.occursIn_typeArguments_iff.mp (by decide +kernel)
  have hlone : ¬ HasLoneArgument mapSource := by
    rw [← hopens.occursIn_componentElement_iff]
    decide +kernel
  rintro ⟨-, hnone | hlist, -⟩
  · exact hnone hopening
  · exact hlone hlist

end Source.Markup

end SiteAtlas
