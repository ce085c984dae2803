import SiteAtlas.Proofs.PropertyMembers

/-!
# Declared properties are extracted

A component with an interface and a parameter that takes it apart is printed in the usual spacing,
and extraction gives back its properties with their defaults. Patterns may be read at several
places, but each ends with braces, and a text has only so many.
-/

namespace SiteAtlas

open List

variable {content ending : List Char}

/-- A text is cut where its first part ends or later. -/
theorem Text.cut_cases {x : Char} {a b u v : List Char} (ha : x ∉ a)
    (h : a ++ x :: b = u ++ x :: v) : u = a ∧ v = b ∨ ∃ w, u = a ++ x :: w ∧ b = w ++ x :: v := by
  obtain ⟨z, hz, hrest⟩ := Text.exists_within ha h.symm
  cases z with
  | nil => exact .inl ⟨by rw [hz, append_nil], (List.cons.inj hrest).2.symm⟩
  | cons y z =>
    obtain ⟨rfl, hb⟩ := List.cons.inj hrest
    exact .inr ⟨z, hz, hb⟩

/-- The separator stands before all parts but the first. -/
theorem Text.join_cons_eq (separator first : List Char) (parts : List (List Char)) :
    Text.join separator (first :: parts) = first ++ parts.flatMap (separator ++ ·) := by
  induction parts generalizing first with
  | nil => simp [Text.join]
  | cons part parts ih =>
    rw [Text.join, ih, flatMap_cons, append_assoc, append_assoc]
    exact cons_ne_nil part parts

namespace Source.Props

open Pattern

/-- A component with the properties that it declares. -/
structure Component where
  name : Word
  properties : List DeclaredProperty
  /-- The names that the parameter takes apart. -/
  entries : List Parameter
  distinct : (entries.map (·.name.text)).Nodup

namespace Component

variable (c : Component)

/-- What stands before the braces of the interface. -/
def opening : List Char :=
  "interface ".toList ++ c.name.text.toList ++ "Props ".toList

/-- What stands before the braces of the parameter list. -/
def signature : List Char :=
  "export function ".toList ++ c.name.text.toList ++ "(".toList

/-- What stands before the braces of the function. -/
def closing : List Char :=
  ": ".toList ++ c.name.text.toList ++ "Props) ".toList

/-- The lines of a component: an interface and a function. -/
def lines : List (List Char) :=
  (c.opening ++ ['\x7b']) :: ((c.properties.map fun d => "  ".toList ++ d.print ++ ";".toList) ++
      [['\x7d'],
        c.signature ++ '\x7b' :: (parameterList c.entries ++ '\x7d' :: (c.closing ++ ['\x7b'])),
        ['\x7d']])

/-- The printed form of a component. -/
def print : List Char :=
  Text.join ['\n'] c.lines

/-- The default values, by name. -/
def givenDefaults : Keyed String :=
  c.entries.filterMap fun q => q.value.map fun value => (q.name.text, value.text)

/-- The declared properties with their defaults. -/
def declared : List Property :=
  c.properties.map fun d =>
    { name := d.name.text, type := d.type.text, required := !d.isOptional
      defaultValue := c.givenDefaults.get? d.name.text }

end Component

/-- A text in braces is captured. -/
theorem exists_of_reaches_braces {least : Nat} {c d : Cursor}
    (h : (braces 1 (loop .greedy least none untilBrace)).Reaches c d) :
    ∃ inner, c.after = '\x7b' :: (inner ++ '\x7d' :: d.after) ∧ '\x7d' ∉ inner ∧
      (d.captures.lookup 1).map Span.text = some inner := by
  obtain ⟨g, ⟨e, hopen, f, hinner, rfl⟩, hclose⟩ := h
  obtain ⟨x, hx, hfirst, -⟩ := Cursor.past_of_read? hopen
  obtain ⟨y, hy, hlast, hcaptures⟩ := Cursor.past_of_read? hclose
  obtain ⟨inner, hpast, hspells⟩ := exists_spells_of_reaches hinner
  have hfree := (spells_loop_one.mp hspells).2
  refine ⟨inner, ?_, fun hmem => absurd (hfree _ hmem) (by decide), ?_⟩
  · have hafter : f.after = '\x7d' :: d.after := by
      rw [← beq_iff_eq.mp hy]
      exact hlast.after
    rw [hfirst.after, hpast.after, hafter, beq_iff_eq.mp hx]
    rfl
  · rw [hcaptures]
    change some (Span.mk e.after (f.offset - e.offset)).text = some inner
    rw [Span.text, hpast.offset, Nat.add_sub_cancel_left, hpast.after, take_left]

/-- Braces are read with what is inside. -/
theorem reads_braces {inside : Pattern} {inner rest : List Char}
    (h : inside.Reads inner ('\x7d' :: rest) []) :
    (braces 1 inside).Reads ('\x7b' :: (inner ++ ['\x7d'])) rest [(1, inner)] :=
  ((reads_char '\x7b' _).seq (h.capture 1)).seq (reads_char '\x7d' rest)

/-- A match of a pattern with final braces stands in braces. -/
theorem exists_braces_of_find? {front : Pattern} {least : Nat} {m : Match}
    (h : (front ++ braces 1 (loop .greedy least none untilBrace)).find? content = some m) :
    ∃ before read after, content = before ++ (read ++ '\x7b' :: (m.group 1 ++ '\x7d' :: after)) ∧
        front.Spells read ∧ '\x7d' ∉ m.group 1 := by
  obtain ⟨before, c, d, heq, ⟨e, hfront, hbraces⟩, hcaptures⟩ := exists_reaches_of_find? h
  obtain ⟨read, hpast, hspells⟩ := exists_spells_of_reaches hfront
  obtain ⟨inner, hafter, hfree, hgroup⟩ := exists_of_reaches_braces hbraces
  have hinner : m.group 1 = inner := by
    rw [Match.group, Match.group?, hcaptures, hgroup, Option.getD_some]
  refine ⟨before, read, d.after, ?_, hspells, by rwa [hinner]⟩
  rw [heq, hpast.after, hafter, hinner]

/-- A body stands in braces. -/
theorem exists_braces_of_body? {name body : List Char} (h : body? content name = some body) :
    ∃ before after, content = before ++ '\x7b' :: (body ++ '\x7d' :: after) ∧ '\x7d' ∉ body := by
  obtain ⟨form, hform, hbody⟩ := exists_of_findSome?_eq_some h
  obtain ⟨hbody, -⟩ := Option.filter_eq_some_iff.mp hbody
  obtain ⟨m, hfind, rfl⟩ := Option.map_eq_some_iff.mp hbody
  have hends : ∃ front, form = front ++ braces 1 (many1 untilBrace) := by
    simp only [declarations, mem_cons, not_mem_nil, or_false] at hform
    rcases hform with rfl | rfl | rfl | rfl | rfl <;> exact ⟨_, rfl⟩
  obtain ⟨front, rfl⟩ := hends
  obtain ⟨before, read, after, heq, -, hfree⟩ := exists_braces_of_find? hfind
  exact ⟨before ++ read, after, by rw [heq, append_assoc], hfree⟩

/-- Parameters stand in braces. -/
theorem exists_braces_of_parameters {name : List Char} {m : Match}
    (h : (parameters name).find? content = some m) : ∃ before gap after,
      content = before ++ '(' :: (gap ++ '\x7b' :: (m.group 1 ++ '\x7d' :: after)) ∧
        (∀ x ∈ gap, Text.isBlank x = true) ∧ '\x7d' ∉ m.group 1 := by
  obtain ⟨before, read, after, heq, hread, hfree⟩ := exists_braces_of_find? h
  obtain ⟨_, gap, rfl, ⟨left, sign, rfl, -, hsign⟩, hgap⟩ := hread
  have hgap : (loop .greedy 0 none (one Text.isBlank)).Spells gap := hgap
  refine ⟨before ++ left, gap, after, ?_, (spells_loop_one.mp hgap).2, hfree⟩
  rw [heq, spells_char.mp hsign]
  simp

/-- Words hold no brace. -/
theorem Word.isBraceless (w : Word) : ∀ x ∈ w.text.toList, isBraceless x = true := by
  intro x hx
  have hword := w.isWord x hx
  rw [Props.isBraceless, Bool.and_eq_true, bne_iff_ne, bne_iff_ne]
  constructor <;> rintro rfl <;> exact absurd hword (by decide)

/-- Nor do words between plain texts. -/
theorem Word.isBraceless_between (w : Word) {before after : String}
    (hbefore : before.toList.all Props.isBraceless = true)
    (hafter : after.toList.all Props.isBraceless = true) :
    ∀ x ∈ before.toList ++ w.text.toList ++ after.toList, Props.isBraceless x = true :=
  forall_mem_append.mpr ⟨forall_mem_append.mpr
    ⟨all_eq_true.mp hbefore, w.isBraceless⟩, all_eq_true.mp hafter⟩

/-- Printed properties hold no brace. -/
theorem DeclaredProperty.isBraceless_print (d : DeclaredProperty) :
    ∀ x ∈ d.print, isBraceless x = true := by
  have hmark : ∀ x ∈ d.mark, isBraceless x = true := by
    unfold mark
    split <;> exact all_eq_true.mp rfl
  simp only [print, forall_mem_append]
  exact ⟨⟨⟨d.name.isBraceless, hmark⟩, all_eq_true.mp rfl⟩, d.type.isBraceless⟩

/-- Printed parameters hold no brace. -/
theorem Parameter.isBraceless_print (q : Parameter) : ∀ x ∈ q.print, isBraceless x = true := by
  rw [print, forall_mem_append]
  refine ⟨q.name.isBraceless, ?_⟩
  cases q.value with
  | none => exact forall_mem_nil _
  | some value => exact forall_mem_append.mpr ⟨all_eq_true.mp rfl, value.isBraceless⟩

/-- Property lists hold no brace. -/
theorem isBraceless_propertyList (properties : List DeclaredProperty) :
    ∀ x ∈ propertyList properties, isBraceless x = true := by
  have hline (d : DeclaredProperty) :
      ∀ x ∈ '\n' :: ("  ".toList ++ d.print ++ ";".toList), isBraceless x = true := by
    rw [forall_mem_cons, forall_mem_append, forall_mem_append]
    exact ⟨rfl, ⟨all_eq_true.mp rfl, d.isBraceless_print⟩, all_eq_true.mp rfl⟩
  rw [propertyList, forall_mem_append]
  refine ⟨fun x hx => ?_, all_eq_true.mp rfl⟩
  obtain ⟨d, -, hx⟩ := mem_flatMap.mp hx
  exact hline d x hx

/-- Parameter lists hold no brace. -/
theorem isBraceless_parameterList (parameters : List Parameter) :
    ∀ x ∈ parameterList parameters, isBraceless x = true := by
  rw [parameterList, forall_mem_cons, forall_mem_append]
  refine ⟨rfl, fun x hx => ?_, all_eq_true.mp rfl⟩
  rcases Source.mem_join hx with hx | ⟨part, hpart, hx⟩
  · exact (all_eq_true (p := isBraceless) (l := ", ".toList)).mp rfl x hx
  · obtain ⟨q, -, rfl⟩ := mem_map.mp hpart
    exact q.isBraceless_print x hx

/-- What is no brace is no closing one. -/
theorem untilBrace_of_isBraceless {x : Char} (h : isBraceless x = true) :
    (!"\x7d".toList.contains x) = true := by
  rw [isBraceless, Bool.and_eq_true, bne_iff_ne, bne_iff_ne] at h
  simpa using h.2

namespace Component

variable (c : Component)

/-- The printed text by its braces. -/
theorem print_append (ending : List Char) :
    c.print ++ ending = c.opening ++ '\x7b' :: (propertyList c.properties ++ '\x7d' ::
      ('\n' :: c.signature ++ '\x7b' :: (parameterList c.entries ++ '\x7d' ::
        (c.closing ++ '\x7b' :: (['\n'] ++ '\x7d' :: ending))))) := by
  rw [print, lines, Text.join_cons_eq, propertyList]
  simp only [flatMap_append, flatMap_map, flatMap_cons, flatMap_nil,
    append_assoc, cons_append, nil_append, append_nil]

/-- Braces hold the properties, the parameters or nothing. -/
theorem braced_cases {u inner v : List Char} (hending : '\x7b' ∉ ending) (hinner : '\x7d' ∉ inner)
    (h : c.print ++ ending = u ++ '\x7b' :: (inner ++ '\x7d' :: v)) :
    u = c.opening ∧ inner = propertyList c.properties ∨ inner = parameterList c.entries ∨
      (∃ front, u = front ++ c.closing) ∧ inner = ['\n'] := by
  have hopens {cs : List Char} (hcs : ∀ x ∈ cs, isBraceless x = true) : '\x7b' ∉ cs :=
    fun hmem => absurd (hcs _ hmem) (by decide)
  -- What follows an opening brace is read up to the next closing one.
  have hcut {cs more : List Char} (hcs : ∀ x ∈ cs, isBraceless x = true)
      (heq : inner ++ '\x7d' :: v = cs ++ '\x7d' :: more) : inner = cs := by
    refine (Text.eq_of_cut (· != '\x7d') ?_ ?_ (by decide) (by decide) heq).1
    · exact fun x hx => bne_iff_ne.mpr fun hbrace => hinner (hbrace ▸ hx)
    · exact fun x hx => (Bool.and_eq_true_iff.mp (hcs x hx)).2
  have hopening : ∀ x ∈ c.opening, isBraceless x = true := c.name.isBraceless_between rfl rfl
  have hsignature : ∀ x ∈ '\n' :: c.signature, isBraceless x = true :=
    forall_mem_cons.mpr ⟨rfl, c.name.isBraceless_between rfl rfl⟩
  have hclosing : ∀ x ∈ c.closing, isBraceless x = true := c.name.isBraceless_between rfl rfl
  have hproperties := isBraceless_propertyList c.properties
  have hparameters := isBraceless_parameterList c.entries
  rw [print_append] at h
  rcases Text.cut_cases (hopens hopening) h with ⟨hu, hrest⟩ | ⟨w, hu, hrest⟩
  · exact .inl ⟨hu, hcut hproperties hrest⟩
  rw [← cons_append, ← append_assoc] at hrest
  have hfirst : '\x7b' ∉ propertyList c.properties ++ '\x7d' :: '\n' :: c.signature := by
    rw [mem_append, mem_cons, not_or, not_or]
    exact ⟨hopens hproperties, by decide, hopens hsignature⟩
  rcases Text.cut_cases hfirst hrest with ⟨-, hrest⟩ | ⟨w', hw, hrest⟩
  · exact .inr (.inl (hcut hparameters hrest))
  rw [← cons_append, ← append_assoc] at hrest
  have hsecond : '\x7b' ∉ parameterList c.entries ++ '\x7d' :: c.closing := by
    rw [mem_append, mem_cons, not_or, not_or]
    exact ⟨hopens hparameters, by decide, hopens hclosing⟩
  rcases Text.cut_cases hsecond hrest with ⟨hw', hrest⟩ | ⟨w'', -, hrest⟩
  · refine .inr (.inr ⟨⟨c.opening ++ '\x7b' :: (propertyList c.properties ++ '\x7d' ::
      ('\n' :: c.signature ++ '\x7b' :: (parameterList c.entries ++ ['\x7d']))), ?_⟩,
      hcut (all_eq_true.mp rfl) hrest⟩)
    rw [hu, hw, hw']
    simp
  · have hmem : '\x7b' ∈ ['\n'] ++ '\x7d' :: ending := by
      rw [hrest]
      simp
    simp [hending] at hmem

/-- The parameters are read. -/
theorem reads_parameters (rest : List Char) :
    (parameters c.name.text.toList).Reads ("function".toList ++ [' '] ++ c.name.text.toList ++ [] ++
      ['('] ++ [] ++ '\x7b' :: (parameterList c.entries ++ ['\x7d'])) rest
      [(1, parameterList c.entries)] := by
  have hfront (more : List Char) : (text "function" ++ blanks1 ++ chars c.name.text.toList ++
      blanks).Reads ("function".toList ++ [' '] ++ c.name.text.toList ++ []) ('(' :: more) [] :=
    (((reads_text "function" _).seq (Import.reads_blanks1 (c.name.headIs_isBlank _))).seq
      (reads_chars _ _)).seq (Import.reads_noBlanks rfl)
  have hlist : (many untilBrace).Reads (parameterList c.entries) ('\x7d' :: rest) [] :=
    reads_many (fun x hx => untilBrace_of_isBraceless (isBraceless_parameterList _ x hx)) rfl
  exact (((hfront _).either_left.seq (reads_char '(' _)).seq (Import.reads_noBlanks rfl)).seq
    (reads_braces hlist)

/-- The parameter list is found. -/
theorem exists_find?_parameters (ending : List Char) :
    ∃ m, (parameters c.name.text.toList).find? (c.print ++ ending) = some m := by
  obtain ⟨m, hfind⟩ := (c.reads_parameters
    (c.closing ++ '\x7b' :: (['\n'] ++ '\x7d' :: ending))).exists_find? (by simp)
    (c.opening ++ '\x7b' :: (propertyList c.properties ++ '\x7d' :: '\n' :: "export ".toList))
  have hexport : "export function ".toList = "export ".toList ++ ("function".toList ++ [' ']) := by
    simp
  refine ⟨m, ?_⟩
  rw [← hfind, print_append]
  unfold signature
  rw [hexport]
  simp

/-- Only the parameters stand in braces after a bracket. -/
theorem group_parameters (hending : '\x7b' ∉ ending) {m : Match}
    (h : (parameters c.name.text.toList).find? (c.print ++ ending) = some m) :
    m.group 1 = parameterList c.entries := by
  obtain ⟨before, gap, after, heq, hgap, hfree⟩ := exists_braces_of_parameters h
  have hbracket {cs : List Char} {y : Char} (hblank : Text.isBlank y = false)
      (hsame : before ++ '(' :: gap = cs ++ [y, ' ']) : y = '(' := by
    have hreversed : gap.reverse ++ '(' :: before.reverse = [' '] ++ y :: cs.reverse := by
      simpa using congrArg List.reverse hsame
    exact (Text.eq_of_cut Text.isBlank (fun x hx => hgap x (mem_reverse.mp hx))
      (all_eq_true.mp rfl) rfl hblank hreversed).2.1.symm
  have hinterface : c.opening = "interface ".toList ++ c.name.text.toList ++ "Prop".toList ++
      ['s', ' '] := by
    unfold opening
    simp
  have hfunction : c.closing = ": ".toList ++ c.name.text.toList ++ "Props".toList ++
      [')', ' '] := by
    unfold closing
    simp
  have hbraces : c.print ++ ending =
      (before ++ '(' :: gap) ++ '\x7b' :: (m.group 1 ++ '\x7d' :: after) := by
    rw [heq, append_assoc, cons_append]
  rcases c.braced_cases hending hfree hbraces with ⟨hu, -⟩ | hinner | ⟨⟨front, hu⟩, -⟩
  · exact absurd (hbracket (by decide) (hu.trans hinterface)) (by decide)
  · exact hinner
  · rw [hfunction, ← append_assoc] at hu
    exact absurd (hbracket (by decide) hu) (by decide)

/-- The default values are those that are given. -/
theorem defaults_print (hending : '\x7b' ∉ ending) :
    defaults (c.print ++ ending) c.name.text.toList = c.givenDefaults := by
  obtain ⟨m, hfind⟩ := c.exists_find?_parameters ending
  have hmembers := forall₂_splitMembers_parameterList c.entries
  rw [← c.group_parameters hending hfind] at hmembers
  rw [defaults, hfind]
  exact foldl_defaults hmembers [] (by simpa using c.distinct)

/-- The interface is read. -/
theorem reads_interfaceNamed (rest : List Char) :
    (interfaceNamed (c.name.text.toList ++ "Props".toList)).Reads ("interface".toList ++ [' '] ++
      (c.name.text.toList ++ "Props".toList) ++ [' '] ++ [] ++
        '\x7b' :: (propertyList c.properties ++ ['\x7d'])) rest
      [(1, propertyList c.properties)] := by
  have hname (more : List Char) :
      headIs Text.isBlank (c.name.text.toList ++ "Props".toList ++ more) = false := by
    rw [append_assoc]
    exact c.name.headIs_isBlank _
  have hextends (more : List Char) :
      (optional (text "extends" ++ many1 (noneOf "\x7b"))).Reads [] ('\x7b' :: more) [] := by
    have hbegins : (text "extends" ++ many1 (noneOf "\x7b")).Begins (· == 'e') := fun x hx => hx
    exact (hbegins.failsAt rfl).optional
  have hlist : (many1 untilBrace).Reads (propertyList c.properties) ('\x7d' :: rest) [] :=
    reads_many1 (by simp [propertyList])
      (fun x hx => untilBrace_of_isBraceless (isBraceless_propertyList _ x hx)) rfl
  exact (((((reads_text "interface" _).seq (Import.reads_blanks1 (hname _))).seq
    (reads_chars _ _)).seq (Import.reads_blanks rfl)).seq (hextends _)).seq (reads_braces hlist)

/-- The interface is found first, and kept if it has a property. -/
theorem body?_print (ending : List Char) (hne : c.properties ≠ []) :
    body? (c.print ++ ending) c.name.text.toList = some (propertyList c.properties) := by
  obtain ⟨m, hfind, hgroups⟩ := (c.reads_interfaceNamed ('\n' :: c.signature ++ '\x7b' ::
    (parameterList c.entries ++ '\x7d' :: (c.closing ++ '\x7b' ::
      (['\n'] ++ '\x7d' :: ending))))).exists_find?_start (by simp)
  have hgroup : m.group 1 = propertyList c.properties := by
    rw [Match.group, hgroups 1]
    rfl
  have hkept := isAllBlank_propertyList hne
  have hopening : c.opening = "interface".toList ++ [' '] ++ (c.name.text.toList ++
      "Props".toList) ++ [' '] := by
    unfold opening
    simp
  have hbody : (((interfaceNamed (c.name.text.toList ++ "Props".toList)).find?
      (c.print ++ ending)).map (·.group 1)).filter (!Text.isAllBlank ·) =
      some (propertyList c.properties) := by
    rw [print_append, hopening]
    simp only [append_assoc, cons_append, nil_append] at hfind ⊢
    rw [hfind, Option.map_some, hgroup, Option.filter_some, hkept]
    rfl
  rw [body?, declarations, findSome?_cons, hbody]

/-- **The declared properties of a component are extracted from its printed form**, each with its
type, whether it is required, and its default value. -/
theorem declared_properties_extracted (blankLines : Nat) :
    extract (c.print ++ List.replicate blankLines '\n') c.name.text.toList = c.declared := by
  have hending : '\x7b' ∉ List.replicate blankLines '\n' := by
    simp [List.mem_replicate]
  rw [extract]
  by_cases hproperties : c.properties = []
  · -- Whatever is found in braces then declares nothing.
    rw [declared, hproperties, List.map_nil]
    split
    · rfl
    · rename_i body hbody
      obtain ⟨before, after, hprint, hfree⟩ := exists_braces_of_body? hbody
      rcases c.braced_cases hending hfree hprint with ⟨-, rfl⟩ | rfl | ⟨-, rfl⟩
      · rw [hproperties, filterMap_property?_propertyList, List.map_nil]
      · exact filterMap_property?_eq_nil (forall₂_splitMembers_parameterList c.entries) _
      · rw [show ['\n'] = propertyList [] from rfl, filterMap_property?_propertyList, List.map_nil]
  · rw [c.body?_print _ hproperties]
    dsimp only
    rw [filterMap_property?_propertyList, c.defaults_print hending, declared]

end Component

/-- A type with brackets, a comma in them and an arrow. -/
def listenersType : Phrase where
  text := "Map<string, (n: number) => void>"
  ne_nil := by simp
  trimmed := by simp [headIs]; decide
  isBraceless := all_eq_true.mp rfl
  closed := by
    have hparameters : Closed true ('(' :: ("n: number".toList ++ ')' :: ' ' :: '=' :: '>' ::
        " void".toList)) :=
      .group rfl rfl (by simp) (closed_string _ rfl) (.ordinary rfl (.arrow (closed_string _ rfl)))
    have harguments : Closed true ("string".toList ++ ',' :: ' ' :: _) :=
      (closed_string _ rfl).append (.comma (.ordinary rfl hparameters))
    have hwhole : Closed false ("Map".toList ++ '<' :: (_ ++ '>' :: [])) :=
      (closed_string _ rfl).append (.group rfl rfl (by simp) harguments .nil)
    simpa using hwhole

/-- A default value with brackets. -/
def noListeners : Phrase where
  text := "new Map()"
  ne_nil := by simp
  trimmed := by simp [headIs]; decide
  isBraceless := all_eq_true.mp rfl
  closed := (closed_string "new Map" rfl).append (.group rfl rfl (by simp) .nil .nil)

/-- The name of a property. -/
def listenersName : Word where
  text := "listeners"
  ne_nil := by simp
  isWord := all_eq_true.mp rfl

/-- A plaque with optional listeners, by default none. -/
def plaque : Component where
  name := ⟨"Plaque", by simp, all_eq_true.mp rfl⟩
  properties := [⟨listenersName, true, listenersType⟩]
  entries :=
    [⟨⟨"caption", by simp, all_eq_true.mp rfl⟩, none⟩, ⟨listenersName, some noListeners⟩]
  distinct := by simp [listenersName]

example : String.ofList plaque.print =
    "interface PlaqueProps \x7b\n  listeners?: Map<string, (n: number) => void>;\n\x7d\nexport " ++
      "function Plaque(\x7b caption, listeners = new Map() \x7d: PlaqueProps) \x7b\n\x7d" := by
  decide +kernel

end Source.Props

end SiteAtlas
