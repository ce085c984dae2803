import SiteAtlas.Proofs.Identity
import SiteAtlas.Proofs.ImportRoundtrip
import SiteAtlas.Proofs.Members
import SiteAtlas.Proofs.NeededTexts
import SiteAtlas.Proofs.TrimmedReading

/-!
# Members with properties and parameters

Properties with their types and parameters with their defaults are printed, and cut into members
again. The member of a property declares it, and that of a parameter gives its default.
-/

namespace SiteAtlas.Source.Props

open List Pattern

variable {member : List Char}

variable (d : DeclaredProperty)

/-- A word. -/
structure Word where
  text : String
  ne_nil : text.toList ≠ []
  isWord : ∀ x ∈ text.toList, Text.isWord x = true

/-- Whether a character is no brace. -/
def isBraceless (c : Char) : Bool :=
  c != '\x7b' && c != '\x7d'

/-- The text of a type or of a default value. -/
structure Phrase where
  text : String
  ne_nil : text.toList ≠ []
  /-- It neither begins nor ends with a blank. -/
  trimmed : headIs Text.isBlank text.toList = false ∧
    headIs Text.isBlank text.toList.reverse = false
  isBraceless : ∀ x ∈ text.toList, isBraceless x = true
  closed : Closed false text.toList

/-- A property in an interface. -/
structure DeclaredProperty where
  name : Word
  isOptional : Bool
  type : Phrase

/-- A name in a parameter that takes the properties apart. -/
structure Parameter where
  name : Word
  value : Option Phrase

/-- The mark of an optional property. -/
def DeclaredProperty.mark (d : DeclaredProperty) : List Char :=
  if d.isOptional then "?".toList else []

/-- A property as it is written. -/
def DeclaredProperty.print (d : DeclaredProperty) : List Char :=
  d.name.text.toList ++ d.mark ++ ": ".toList ++ d.type.text.toList

/-- A parameter as it is written. -/
def Parameter.print (q : Parameter) : List Char :=
  q.name.text.toList ++ (q.value.elim [] fun value => " = ".toList ++ value.text.toList)

/-- A list of parameters in braces. -/
def parameterList (parameters : List Parameter) : List Char :=
  ' ' :: (Text.join ", ".toList (parameters.map Parameter.print) ++ [' '])

section Word

variable (w : Word)

/-- A word begins with no blank. -/
theorem Word.headIs_isBlank (rest : List Char) :
    headIs Text.isBlank (w.text.toList ++ rest) = false :=
  Import.headIs_isBlank_word w.ne_nil w.isWord rest

/-- A word holds no other character. -/
theorem Word.not_mem {x : Char} (hx : Text.isWord x = false) : x ∉ w.text.toList :=
  fun hmem => Bool.noConfusion (hx.symm.trans (w.isWord x hmem))

/-- A word is closed. -/
theorem Word.closed : Closed false w.text.toList :=
  closed_of_ordinary fun x hx => isOrdinary_of_isWord (w.isWord x hx)

/-- A word is read. -/
theorem Word.reads {rest : List Char} (hrest : headIs Text.isWord rest = false) :
    word.Reads w.text.toList rest [] :=
  reads_many1 w.ne_nil w.isWord hrest

end Word

/-- A phrase begins with no blank. -/
theorem Phrase.headIs_isBlank (f : Phrase) (rest : List Char) :
    headIs Text.isBlank (f.text.toList ++ rest) = false := by
  obtain ⟨x, others, heq⟩ := exists_cons_of_ne_nil f.ne_nil
  have hfirst := f.trimmed.1
  rw [heq] at hfirst ⊢
  exact hfirst

/-- A text with a character that is not blank is not left out. -/
theorem isAllBlank_eq_false {cs : List Char} {x : Char} (hx : x ∈ cs)
    (hblank : Text.isBlank x = false) : Text.isAllBlank cs = false := by
  rw [Text.isAllBlank, all_eq_false]
  exact ⟨x, hx, by simp [hblank]⟩

/-- A closed text is one line. -/
theorem Closed.ne_newline {inside : Bool} {cs : List Char} (h : Closed inside cs) :
    ∀ x ∈ cs, (x != '\n') = true := by
  have hne {c : Char} (hc : isOpener c = true ∨ isCloser c = true ∨ isOrdinary c = true) :
      (c != '\n') = true := by
    rw [bne_iff_ne]
    rintro rfl
    exact absurd hc (by decide)
  induction h with
  | nil => exact forall_mem_nil _
  | ordinary hc _ ih => exact forall_mem_cons.mpr ⟨hne (.inr (.inr hc)), ih⟩
  | arrow _ ih => exact forall_mem_cons.mpr ⟨rfl, forall_mem_cons.mpr ⟨rfl, ih⟩⟩
  | comma _ ih => exact forall_mem_cons.mpr ⟨rfl, ih⟩
  | closer hc _ ih => exact forall_mem_cons.mpr ⟨hne (.inr (.inl hc)), ih⟩
  | group hopener hcloser _ _ _ ihcontent ih =>
    refine forall_mem_cons.mpr ⟨hne (.inl hopener), fun x hx => ?_⟩
    rcases mem_append.mp hx with hx | hx
    · exact ihcontent x hx
    · rcases mem_cons.mp hx with rfl | hx
      · exact hne (.inr (.inl hcloser))
      · exact ih x hx

/-- A printed property is read with its name, its mark and its type. -/
theorem DeclaredProperty.exists_matchStart? :
    ∃ m, propertyLine.matchStart? ("  ".toList ++ d.print) = some m ∧
      m.group? 1 = some d.name.text.toList ∧ m.group? 2 = some d.mark ∧
      m.group? 3 = some d.type.text.toList := by
  have htype := (reads_trimmed 3 d.type.ne_nil d.type.closed.ne_newline d.type.trimmed.2
    (forall_mem_nil _)).of_eq (append_nil _) rfl
  have hmark (more : List Char) : (optional (char '?')).Reads d.mark (':' :: more) [] := by
    unfold mark
    cases d.isOptional with
    | true => exact (reads_char '?' _).optional
    | false =>
      have hbegins : (char '?').Begins (· == '?') := fun x hx => hx
      exact (hbegins.failsAt rfl).optional
  have hname (more : List Char) : headIs Text.isWord (d.mark ++ ([':'] ++ more) ++ []) = false := by
    unfold mark
    cases d.isOptional <;> simp [headIs] <;> decide
  have hindent : ∀ x ∈ "  ".toList, Text.isBlank x = true := by
    simp
    decide
  have hfrom := ((hmark _).capture 2).seq ((reads_char ':' _).seq
    ((Import.reads_blanks (d.type.headIs_isBlank _)).seq htype))
  have hwhole := ((d.name.reads (hname _)).capture 1).seq hfrom
  have hreads := (reads_many hindent (by rw [append_assoc]; apply Word.headIs_isBlank)).seq hwhole
  obtain ⟨m, hmatch, hgroups⟩ := Reads.exists_matchStart? (p := propertyLine) rfl hreads
  refine ⟨m, ?_, hgroups 1, hgroups 2, hgroups 3⟩
  rw [← hmatch, print]
  simp

/-- A printed property neither begins nor ends with a blank. -/
theorem DeclaredProperty.trim_print : Text.trim ("  ".toList ++ d.print) = d.print := by
  have hfirst : headIs Text.isBlank d.print = false := by
    rw [print, append_assoc, append_assoc]
    exact d.name.headIs_isBlank _
  have hlast : headIs Text.isBlank d.print.reverse = false := by
    obtain ⟨x, others, heq⟩ := exists_cons_of_ne_nil (reverse_ne_nil_iff.mpr d.type.ne_nil)
    have hx := d.type.trimmed.2
    rw [print, reverse_append]
    rw [heq] at hx ⊢
    exact hx
  have htrim : Text.trim ("  ".toList ++ d.print ++ []) = d.print :=
    Text.trim_padded (by simp; decide) (forall_mem_nil _) hfirst hlast
      (by simp [print, d.name.ne_nil])
  rwa [append_nil] at htrim

/-- A property is no comment. -/
theorem DeclaredProperty.isComment_print : isComment ("  ".toList ++ d.print) = false := by
  obtain ⟨x, others, hname⟩ := exists_cons_of_ne_nil d.name.ne_nil
  have hx : Text.isWord x = true := d.name.isWord x (by simp [hname])
  have hstart (y : Char) (more : List Char) (hy : Text.isWord y = false) :
      (y :: more).isPrefixOf d.print = false := by
    have hne : y ≠ x := by
      rintro rfl
      exact Bool.noConfusion (hx.symm.trans hy)
    simp [print, hname, List.isPrefixOf, hne]
  rw [isComment, d.trim_print]
  simp [commentStarts, hstart '/' _ (by decide), hstart '*' _ (by decide)]

/-- A written property is read back. -/
theorem DeclaredProperty.property?_print (table : Keyed String) :
    property? table ("  ".toList ++ d.print) = some
      { name := d.name.text
        type := d.type.text
        required := !d.isOptional
        defaultValue := table.get? d.name.text } := by
  obtain ⟨m, hmatch, hname, hmark, htype⟩ := d.exists_matchStart?
  have htrim : Text.trim d.type.text.toList = d.type.text.toList := by
    have h := Text.trim_padded (forall_mem_nil _) (forall_mem_nil _) d.type.trimmed.1
      d.type.trimmed.2 d.type.ne_nil
    rwa [nil_append, append_nil] at h
  have hrequired : d.mark.isEmpty = !d.isOptional := by
    unfold mark
    cases d.isOptional <;> simp
  rw [property?, d.isComment_print, if_neg Bool.false_ne_true, hmatch, Option.map_some]
  simp [Match.groupString, Match.group, hname, hmark, htype, htrim, hrequired]

/-- A member of a parameter list, with the blanks around it. -/
def IsMemberOf (member : List Char) (q : Parameter) : Prop :=
  ∃ trail, (∀ x ∈ trail, Text.isBlank x = true) ∧ member = ' ' :: (q.print ++ trail)

/-- What a member says about a default value. -/
def default? (member : List Char) : Option (String × String) :=
  (defaultEntry.matchStart? member).map fun m => (m.groupString 1, m.groupString 2)

/-- A default value is told apart from the name of its parameter. -/
theorem exists_matchStart?_defaultEntry (name : Word) (value : Phrase) {trail : List Char}
    (htrail : ∀ x ∈ trail, Text.isBlank x = true) : ∃ m, defaultEntry.matchStart?
        (' ' :: (name.text.toList ++ " = ".toList ++ value.text.toList ++ trail)) = some m ∧
      m.group? 1 = some name.text.toList ∧ m.group? 2 = some value.text.toList := by
  have hvalue : (chain [capture 2 (few1 any), blanks, lastLineEnd]).Reads
      (value.text.toList ++ trail) [] [(2, value.text.toList)] :=
    reads_trimmed 2 value.ne_nil (fun _ _ => rfl) value.trimmed.2 htrail
  have hrenamed (more : List Char) :
      (optional (char ':' ++ blanks ++ word ++ blanks)).Reads [] ('=' :: more) [] := by
    have hbegins : (char ':' ++ blanks ++ word ++ blanks).Begins (· == ':') := fun x hx => hx
    exact (hbegins.failsAt rfl).optional
  have hfrom := (hrenamed _).seq ((reads_char '=' _).seq
    ((Import.reads_blanks (by rw [append_assoc]; apply Phrase.headIs_isBlank)).seq hvalue))
  have hwhole := ((name.reads rfl).capture 1).seq ((Import.reads_blanks rfl).seq hfrom)
  have hreads := (Import.reads_blanks (by rw [append_assoc]; apply Word.headIs_isBlank)).seq hwhole
  obtain ⟨m, hmatch, hgroups⟩ := Reads.exists_matchStart? (p := defaultEntry) rfl hreads
  refine ⟨m, ?_, hgroups 1, hgroups 2⟩
  rw [← hmatch]
  simp

/-- A member gives its default. -/
theorem IsMemberOf.default?_eq {q : Parameter} (h : IsMemberOf member q) :
    default? member = q.value.map fun value => (q.name.text, value.text) := by
  obtain ⟨trail, htrail, rfl⟩ := h
  cases hvalue : q.value with
  | some value =>
    obtain ⟨m, hmatch, hname, hgroup⟩ := exists_matchStart?_defaultEntry q.name value htrail
    have hprint : q.print = q.name.text.toList ++ " = ".toList ++ value.text.toList := by
      rw [Parameter.print, hvalue, Option.elim_some, append_assoc]
    rw [default?, hprint, hmatch, Option.map_some, Option.map_some]
    simp [Match.groupString, Match.group, hname, hgroup]
  | none =>
    have hprint : q.print = q.name.text.toList := by
      rw [Parameter.print, hvalue, Option.elim_none, append_nil]
    have hequals : '=' ∉ ' ' :: (q.print ++ trail) := by
      rw [hprint, mem_cons, mem_append, not_or, not_or]
      exact ⟨by decide, q.name.not_mem (by decide), fun hmem => absurd (htrail _ hmem) (by decide)⟩
    have hfails : defaultEntry.FailsAt (' ' :: (q.print ++ trail)) := by
      refine failsAt_of_spells fun spelled more hspells heq => hequals ?_
      obtain ⟨_, _, rfl, ⟨_, _, rfl, ⟨_, _, rfl, ⟨_, _, rfl, hupTo, -⟩, -⟩, -⟩, -⟩ := hspells
      obtain ⟨_, _, rfl, -, hsign⟩ := hupTo
      rw [heq, spells_char.mp hsign]
      simp
    rw [default?, matchStart?, hfails.matchAt_eq_none]
    rfl

/-- What follows the name in a member is the end or a blank. -/
theorem IsMemberOf.exists_tail {q : Parameter} (h : IsMemberOf member q) :
    ∃ tail, member = ' ' :: (q.name.text.toList ++ tail) ∧
      ∀ x others, tail = x :: others → Text.isBlank x = true := by
  obtain ⟨trail, htrail, rfl⟩ := h
  refine ⟨(q.value.elim [] fun value => " = ".toList ++ value.text.toList) ++ trail, ?_, ?_⟩
  · rw [Parameter.print, append_assoc]
  · intro x others heq
    cases hvalue : q.value with
    | none =>
      rw [hvalue, Option.elim_none, nil_append] at heq
      exact htrail x (by simp [heq])
    | some value =>
      rw [hvalue] at heq
      obtain ⟨rfl, -⟩ := List.cons.inj heq
      decide

/-- A property begins with a word and a question mark or a colon behind it. -/
theorem failsAt_propertyLine (h : ∀ w name y more, (∀ x ∈ w, Text.isBlank x = true) → name ≠ [] →
      (∀ x ∈ name, Text.isWord x = true) → y = '?' ∨ y = ':' → member ≠ w ++ (name ++ y :: more)) :
    propertyLine.FailsAt member := by
  refine .of_parts (failsAt_append fun start others hstart hmember => ?_)
  obtain rfl : start = [] := hstart
  refine failsAt_gap_append fun w v hv _ hw => failsAt_append fun name rest hname hrest => ?_
  have hname : (loop .greedy 1 none (one Text.isWord)).Spells name := hname
  obtain ⟨hlength, hwords⟩ := spells_loop_one.mp hname
  rintro c d rfl ⟨e, ⟨f, hmark, rfl⟩, hcolon⟩
  have hnext : ∃ y more, c.after = y :: more ∧ (y = '?' ∨ y = ':') := by
    rcases reaches_optional hmark with rfl | hmark
    · obtain ⟨y, hy, hpast, -⟩ := Cursor.past_of_read? hcolon.choose_spec.1
      exact ⟨y, _, hpast.after, .inr (beq_iff_eq.mp hy)⟩
    · obtain ⟨y, hy, hpast, -⟩ := Cursor.past_of_read? hmark
      exact ⟨y, _, hpast.after, .inl (beq_iff_eq.mp hy)⟩
  obtain ⟨y, more, hafter, hy⟩ := hnext
  refine h w name y more hw (length_pos_iff.mp hlength) hwords hy ?_
  rw [hmember, hv, hrest, hafter, nil_append]

/-- A parameter declares no property. -/
theorem IsMemberOf.property?_eq_none {q : Parameter} (h : IsMemberOf member q)
    (table : Keyed String) : property? table member = none := by
  obtain ⟨tail, rfl, htail⟩ := h.exists_tail
  have hfails : propertyLine.FailsAt (' ' :: (q.name.text.toList ++ tail)) := by
    refine failsAt_propertyLine fun w name y more hw hne hname hy heq => ?_
    have hsign : Text.isBlank y = false ∧ Text.isWord y = false := by
      rcases hy with rfl | rfl <;> decide
    have hnames : q.name.text.toList ++ tail = name ++ y :: more := by
      obtain ⟨a, others, ha⟩ := exists_cons_of_ne_nil q.name.ne_nil
      obtain ⟨b, rest, rfl⟩ := exists_cons_of_ne_nil hne
      have hfirst := Text.isBlank_eq_false_of_isWord (q.name.isWord a (by simp [ha]))
      have hother := Text.isBlank_eq_false_of_isWord (hname b mem_cons_self)
      rw [ha] at heq ⊢
      obtain ⟨-, rfl, hrest⟩ := Text.eq_of_cut (a := [' ']) Text.isBlank (by simp; decide) hw hfirst
        hother heq
      exact congrArg (a :: ·) hrest
    cases tail with
    | nil =>
      refine q.name.not_mem hsign.2 ?_
      rw [← append_nil q.name.text.toList, hnames]
      simp
    | cons x others =>
      have hx := htail x others rfl
      have hnot : Text.isWord x = false := by
        rw [Bool.eq_false_iff]
        exact fun hword => Bool.noConfusion (hx.symm.trans (Text.isBlank_eq_false_of_isWord hword))
      obtain ⟨-, rfl, -⟩ := Text.eq_of_cut Text.isWord q.name.isWord hname hnot hsign.2 hnames
      exact Bool.noConfusion (hx.symm.trans hsign.1)
  unfold property?
  split
  · rfl
  · rw [matchStart?, hfails.matchAt_eq_none, Option.map_none]

/-- A property is closed. -/
theorem DeclaredProperty.closed : Closed false ("  ".toList ++ d.print) := by
  have hmark : Closed false d.mark := by
    unfold mark
    split <;> exact closed_of_ordinary (by simp <;> decide)
  exact (closed_string "  " rfl).append (((d.name.closed.append hmark).append
    (closed_string ": " rfl)).append d.type.closed)

/-- A parameter is closed. -/
theorem Parameter.closed (q : Parameter) : Closed false (' ' :: q.print) := by
  refine .ordinary rfl (q.name.closed.append ?_)
  cases q.value with
  | none => exact .nil
  | some value => exact (closed_string " = " rfl).append value.closed

/-- A list of properties as it stands between the braces of an interface. -/
def propertyList (properties : List DeclaredProperty) : List Char :=
  (properties.flatMap fun d => '\n' :: ("  ".toList ++ d.print ++ ";".toList)) ++ ['\n']

/-- A property is not all blank. -/
theorem DeclaredProperty.isAllBlank_print (before after : List Char) :
    Text.isAllBlank (before ++ (d.print ++ after)) = false := by
  obtain ⟨x, others, hname⟩ := exists_cons_of_ne_nil d.name.ne_nil
  exact isAllBlank_eq_false (by simp [print, hname])
    (Text.isBlank_eq_false_of_isWord (d.name.isWord x (by simp [hname])))

/-- A list of properties is not blank. -/
theorem isAllBlank_propertyList {properties : List DeclaredProperty} (hne : properties ≠ []) :
    Text.isAllBlank (propertyList properties) = false := by
  obtain ⟨d, others, rfl⟩ := exists_cons_of_ne_nil hne
  have hlist : propertyList (d :: others) =
      ('\n' :: "  ".toList) ++ (d.print ++ ';' :: propertyList others) := by
    simp [propertyList]
  rw [hlist, d.isAllBlank_print]

/-- A list splits into its properties. -/
theorem splitMembers_propertyList (properties : List DeclaredProperty) :
    splitMembers (propertyList properties) = properties.map fun d => "  ".toList ++ d.print := by
  suffices hcut : ∀ last, (cutMembers ⟨0, last⟩ (propertyList properties)).filter
      (!Text.isAllBlank ·) = properties.map fun d => "  ".toList ++ d.print from hcut none
  induction properties with
  | nil => exact fun _ => rfl
  | cons d properties ih =>
    intro last
    have hkept := d.isAllBlank_print "  ".toList []
    have hlist : propertyList (d :: properties) =
        [] ++ '\n' :: ("  ".toList ++ d.print ++ ';' :: propertyList properties) := by
      simp [propertyList]
    rw [append_nil] at hkept
    rw [hlist, Closed.nil.cutMembers_separator (.inr (.inl rfl)),
      d.closed.cutMembers_separator (.inl rfl), filter_cons, filter_cons, hkept, ih,
      map_cons]
    rfl

/-- A list splits into its parameters. -/
theorem forall₂_splitMembers_parameterList (parameters : List Parameter) :
    List.Forall₂ IsMemberOf (splitMembers (parameterList parameters)) parameters := by
  suffices hcut : ∀ last, List.Forall₂ IsMemberOf ((cutMembers ⟨0, last⟩
      (parameterList parameters)).filter (!Text.isAllBlank ·)) parameters from hcut none
  induction parameters with
  | nil => exact fun _ => .nil
  | cons q parameters ih =>
    intro last
    obtain ⟨x, others, hname⟩ := exists_cons_of_ne_nil q.name.ne_nil
    have hx := Text.isBlank_eq_false_of_isWord (q.name.isWord x (by simp [hname]))
    have hkept (trail : List Char) : Text.isAllBlank (' ' :: (q.print ++ trail)) = false :=
      isAllBlank_eq_false (by simp [Parameter.print, hname]) hx
    cases parameters with
    | nil =>
      have hclosed : Closed false (' ' :: q.print ++ [' ']) :=
        q.closed.append (.ordinary rfl .nil)
      have hlast : (cutMembers ⟨0, last⟩ (' ' :: q.print ++ [' '])).filter (!Text.isAllBlank ·) =
          [' ' :: (q.print ++ [' '])] := by
        rw [hclosed.cutMembers_end, cons_append, filter_cons, hkept]
        rfl
      exact hlast ▸ .cons ⟨[' '], by simp; decide, rfl⟩ .nil
    | cons next parameters =>
      have hlist : parameterList (q :: next :: parameters) =
          ' ' :: q.print ++ ',' :: parameterList (next :: parameters) := by
        simp [parameterList, Text.join]
      have hfirst := hkept []
      rw [append_nil] at hfirst
      rw [hlist, q.closed.cutMembers_separator (.inr (.inr rfl)), filter_cons, hfirst]
      exact .cons ⟨[], forall_mem_nil _, by rw [append_nil]⟩ (ih _)

/-- Members give the defaults of their parameters, by name. -/
theorem foldl_defaults {members : List (List Char)} {entries : List Parameter}
    (h : List.Forall₂ IsMemberOf members entries) (table : Keyed String)
    (hdistinct : (table.map (·.1) ++ entries.map (·.name.text)).Nodup) :
    members.foldl (fun table member => match defaultEntry.matchStart? member with
        | some d => table.put (d.groupString 1) (d.groupString 2)
        | none => table) table =
      table ++ entries.filterMap fun q => q.value.map fun value => (q.name.text, value.text) := by
  induction h generalizing table with
  | nil => rw [foldl_nil, filterMap_nil, append_nil]
  | @cons member q members entries hmember _ ih =>
    have hdefault := hmember.default?_eq
    rw [foldl_cons]
    cases hvalue : q.value with
    | none =>
      rw [default?, hvalue, Option.map_none, Option.map_eq_none_iff] at hdefault
      have hothers := hdistinct.sublist ((sublist_cons_self _ _).append_left _)
      rw [hdefault, ih table hothers, filterMap_cons_none (by rw [hvalue, Option.map_none])]
    | some value =>
      rw [default?, hvalue, Option.map_some, Option.map_eq_some_iff] at hdefault
      obtain ⟨d, hmatch, hd⟩ := hdefault
      obtain ⟨hname, htext⟩ := Prod.mk.inj hd
      have hfresh : q.name.text ∉ table.map (·.1) := fun hmem =>
        disjoint_of_nodup_append hdistinct hmem mem_cons_self
      have hothers : ((table ++ [(q.name.text, value.text)]).map (·.1) ++
          entries.map (·.name.text)).Nodup := by
        simpa using hdistinct
      rw [hmatch]
      simp only [hname, htext]
      rw [Keyed.put_of_not_mem table _ _ hfresh, ih _ hothers, append_assoc,
        filterMap_cons_some (by rw [hvalue, Option.map_some])]
      rfl

/-- The properties of a list are read back. -/
theorem filterMap_property?_propertyList (properties : List DeclaredProperty)
    (table : Keyed String) :
    (splitMembers (propertyList properties)).filterMap (property? table) = properties.map fun d =>
      { name := d.name.text, type := d.type.text, required := !d.isOptional
        defaultValue := table.get? d.name.text } := by
  rw [splitMembers_propertyList, filterMap_map, ← filterMap_eq_map]
  refine filterMap_congr fun d _ => ?_
  rw [Function.comp_apply, Function.comp_apply, d.property?_print]

/-- Members of a list of parameters declare no property. -/
theorem filterMap_property?_eq_nil {members : List (List Char)} {entries : List Parameter}
    (h : List.Forall₂ IsMemberOf members entries) (table : Keyed String) :
    members.filterMap (property? table) = [] := by
  induction h with
  | nil => rfl
  | cons hmember _ ih => rw [filterMap_cons_none (hmember.property?_eq_none table), ih]

end SiteAtlas.Source.Props
