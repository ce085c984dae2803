import SiteAtlas.Proofs.RouteTags

/-!
# Routes declared as objects

The six shapes of objects read the first field of an object, and most read on to another before it
is closed. On the line of an object a shape is read in one way or not at all.
-/

namespace SiteAtlas.Route

open List Pattern
open Source.Import (reads_blanks reads_noBlanks headIs_isBlank_word)

variable {p q r : Pattern} {text rest more : List Char} {captured : List (Nat × List Char)}

/-- All blanks are read before a pattern that does not begin with one. -/
theorem failsAt_blanks_append {accepts : Char → Bool} (blank : List Char)
    (hbegins : q.Begins accepts) (haccepts : ∀ x, Text.isBlank x = true → accepts x = false)
    (hblank : blank.all Text.isBlank = true) (htext : headIs Text.isBlank text = false)
    (h : q.FailsAt text) : (blanks ++ q).FailsAt (blank ++ text) := by
  refine failsAt_gap_append fun w v heq _ hw => ?_
  rcases append_eq_append_iff.mp heq with ⟨z, rfl, hz⟩ | ⟨z, rfl, hz⟩
  · cases z with
    | nil => rwa [← nil_append v, ← hz]
    | cons x z =>
      have hx : Text.isBlank x = true := hw x (by simp)
      rw [hz] at htext
      exact absurd hx (by rw [show Text.isBlank x = false from htext]; decide)
  · cases z with
    | nil => rwa [hz]
    | cons x z =>
      rw [hz]
      exact hbegins.failsAt (haccepts x (all_eq_true.mp hblank x (by simp)))

/-- Blanks are told apart from a character that is none. -/
theorem beq_eq_false_of_isBlank (first : Char) (hfirst : Text.isBlank first = false) (x : Char)
    (hx : Text.isBlank x = true) : (x == first) = false := by
  rw [beq_eq_false_iff_ne]
  rintro rfl
  exact Bool.noConfusion (hfirst.symm.trans hx)

/-- A comma and a blank are read before a pattern that begins with no blank. -/
theorem failsAt_comma_append {first : Char} (hbegins : q.Begins (· == first))
    (hfirst : Text.isBlank first = false) (htext : headIs Text.isBlank text = false)
    (h : q.FailsAt text) : (comma ++ q).FailsAt (", ".toList ++ text) := by
  refine failsAt_assoc (failsAt_assoc ?_)
  refine failsAt_blanks_append [] (fun _ h => h) (beq_eq_false_of_isBlank ',' (by decide))
    rfl rfl (failsAt_char_append fun more hmore => ?_)
  obtain rfl := (List.cons.inj hmore).2
  exact failsAt_blanks_append " ".toList hbegins (beq_eq_false_of_isBlank first hfirst) (by decide)
    htext h

/-- After a quoted path, a failure stays. -/
theorem failsAt_quoted_append {index : Nat} (path : WrittenPath) (h : q.FailsAt text) :
    (quotedAs index ++ q).FailsAt ('"' :: (path.chars ++ '"' :: text)) := by
  refine failsAt_append fun spelled more hspells heq => ?_
  obtain ⟨front, close, rfl, ⟨start, inner, rfl, hstart, hinner⟩, hclose⟩ := hspells
  obtain ⟨x, hx, rfl⟩ := spells_one.mp hstart
  obtain ⟨y, hy, rfl⟩ := spells_one.mp hclose
  have hall := (spells_loop_one.mp (spells_capture.mp hinner)).2
  have hcut : path.chars ++ '"' :: text = inner ++ y :: more := by simpa using (List.cons.inj heq).2
  obtain ⟨-, -, rfl⟩ := Text.eq_of_cut (fun x => !"\"'".toList.contains x) path.unquoted hall
    (by decide) (congrArg not hy) hcut
  exact h

/-- A path that is not a star is not read as one. -/
theorem failsAt_star_append (path : WrittenPath) (h : path.chars = ['*'] → q.FailsAt text) :
    (quote ++ (char '*' ++ (quote ++ q))).FailsAt ('"' :: (path.chars ++ '"' :: text)) := by
  refine failsAt_append fun start more hstart heq => failsAt_char_append fun others hothers => ?_
  refine failsAt_append fun close last hclose hlast => ?_
  obtain ⟨x, -, rfl⟩ := spells_one.mp hstart
  obtain ⟨y, hy, rfl⟩ := spells_one.mp hclose
  have hcut : path.chars ++ '"' :: text = ['*'] ++ y :: last := by
    rw [hlast] at hothers
    rw [(List.cons.inj heq).2]
    exact hothers
  obtain ⟨hpath, -, rfl⟩ := Text.eq_of_cut (fun x => !"\"'".toList.contains x) path.unquoted
    (all_eq_true.mp rfl) (by decide) (congrArg not hy) hcut
  exact h hpath

/-- After a path's label, a failure stays. -/
theorem failsAt_pathLabel_append (hbegins : q.Begins fun x => "\"'".toList.contains x)
    (h : q.FailsAt ('"' :: text)) :
    (Pattern.text "path:" ++ (blanks ++ q)).FailsAt ("path: \"".toList ++ text) := by
  refine failsAt_text_append fun more hmore => ?_
  have hsplit : "path: \"".toList ++ text = "path:".toList ++ (" ".toList ++ '"' :: text) := by simp
  obtain rfl := (append_right_inj _).mp (hsplit.symm.trans hmore)
  refine failsAt_blanks_append " ".toList hbegins (fun x hx => ?_) (by decide) rfl h
  have hdouble := beq_eq_false_of_isBlank '"' (by decide) x hx
  have hsingle := beq_eq_false_of_isBlank '\'' (by decide) x hx
  simpa using ⟨ne_of_beq_false hdouble, ne_of_beq_false hsingle⟩

/-- After a path's field, a failure stays. -/
theorem failsAt_pathField_append {index : Nat} (path : WrittenPath) (h : q.FailsAt text) :
    (pathField index ++ q).FailsAt ("path: \"".toList ++ (path.chars ++ '"' :: text)) :=
  failsAt_assoc (failsAt_assoc
    (failsAt_pathLabel_append (fun _ h => h) (failsAt_quoted_append path h)))

section Objects

variable {shape : Shape} {first : Char} {others : List Pattern}

/-- A shape reads an object's first field by its first letter. -/
structure Shape.IsObject (shape : Shape) (first : Char) (others : List Pattern) : Prop where
  begins : shape.pattern.Begins (· == '\x7b')
  parts : shape.pattern.parts = char '\x7b' :: blanks :: others
  field : (chain others).Begins (· == first)
  notBlank : Text.isBlank first = false
  notTag : first ≠ '<'

/-- The element's shape is one of objects. -/
theorem isObject_element : fieldElement.IsObject 'p' [pathField 1, comma, elementField 2] :=
  ⟨fun _ h => h, rfl, fun _ h => h, by decide, by decide⟩

/-- An element and then a path. -/
theorem isObject_last : fieldLast.IsObject 'e' [elementField 1, many withinBraces,
    optional (char '/'), blanks, char '>', comma, pathField 2] :=
  ⟨fun _ h => h, rfl, fun _ h => h, by decide, by decide⟩

/-- A path and then an import. -/
theorem isObject_lazy : fieldLazy.IsObject 'p' [pathField 1, many withinBraces,
    Pattern.text "lazy:", blanks, Pattern.text "()", blanks, Pattern.text "=>", blanks,
    Pattern.text "import", blanks, char '(', blanks, quotedAs 2, blanks, char ')'] :=
  ⟨fun _ h => h, rfl, fun _ h => h, by decide, by decide⟩

/-- A path and then a named component. -/
theorem isObject_component : fieldComponent.IsObject 'p' [pathField 1, many withinBraces,
    Pattern.text "Component:", blanks, capture 2 word] :=
  ⟨fun _ h => h, rfl, fun _ h => h, by decide, by decide⟩

/-- A mark for an index and then an element. -/
theorem isObject_index : fieldIndex.IsObject 'i' [Pattern.text "index:", blanks,
    Pattern.text "true", comma, elementField 1] :=
  ⟨fun _ h => h, rfl, fun _ h => h, by decide, by decide⟩

/-- A star and then an element. -/
theorem isObject_rest : fieldRest.IsObject 'p' [Pattern.text "path:", blanks, quote, char '*',
    quote, comma, elementField 1] :=
  ⟨fun _ h => h, rfl, fun _ h => h, by decide, by decide⟩

/-- A shape of objects reads its fields. -/
theorem Shape.IsObject.reads (h : shape.IsObject first others)
    (hothers : (chain others).Reads text rest captured)
    (hstart : headIs Text.isBlank (text ++ rest) = false) :
    shape.pattern.Reads ("\x7b ".toList ++ text) rest captured := by
  apply Reads.of_parts
  rw [h.parts]
  exact ((reads_char '\x7b' _).seq ((reads_blanks hstart).seq hothers)).of_eq (by simp) (by simp)

/-- An object cannot be read if its fields cannot. -/
theorem Shape.IsObject.failsAt (h : shape.IsObject first others) (blank : List Char)
    (hblank : blank.all Text.isBlank = true) (htext : headIs Text.isBlank text = false)
    (hothers : (chain others).FailsAt text) :
    shape.pattern.FailsAt ('\x7b' :: (blank ++ text)) := by
  apply FailsAt.of_parts
  rw [h.parts]
  refine failsAt_char_append fun more hmore => ?_
  obtain rfl := (List.cons.inj hmore).2
  exact failsAt_blanks_append blank h.field (beq_eq_false_of_isBlank first h.notBlank) hblank htext
    hothers

end Objects

section Fields

variable (path : WrittenPath) (name : ComponentName) (index : Nat)

/-- The field of a path is read. -/
theorem reads_pathField (rest : List Char) :
    (pathField index).Reads ("path: \"".toList ++ (path.chars ++ ['"'])) rest
      [(index, path.chars)] :=
  (((reads_text "path:" _).seq (reads_blanks rfl)).seq
    (reads_quotedAs index path.ne_nil path.unquoted rest)).of_eq (by simp) (by simp)

/-- A comma is read with its blank. -/
theorem reads_comma (hrest : headIs Text.isBlank rest = false) : comma.Reads ", ".toList rest [] :=
  (((reads_noBlanks rfl).seq (reads_char ',' _)).seq (reads_blanks hrest)).of_eq (by simp) rfl

/-- The field of an element is read. -/
theorem reads_elementField (hrest : headIs Text.isWord rest = false) :
    (elementField index).Reads ("element: <".toList ++ name.chars) rest [(index, name.chars)] :=
  (((reads_text "element:" _).seq (reads_blanks rfl)).seq
    (reads_elementStart index name hrest)).of_eq (by simp) (by simp)

/-- An object with an element is read. -/
theorem reads_fieldElement (rest : List Char) :
    fieldElement.pattern.Reads ("\x7b path: \"".toList ++ (path.chars ++
      ("\", element: <".toList ++ name.chars))) (" /> \x7d,".toList ++ rest)
      [(2, name.chars), (1, path.chars)] := by
  have hfields := (reads_pathField path 1 _).seq ((reads_comma rfl).seq
    ((reads_elementField name 2 rfl).seq (reads_empty (" /> \x7d,".toList ++ rest))))
  exact (isObject_element.reads hfields rfl).of_eq (by simp) (by simp)

/-- A star and then an element are read. -/
theorem reads_fieldRest (rest : List Char) :
    fieldRest.pattern.Reads ("\x7b path: \"*\", element: <".toList ++ name.chars)
      (" /> \x7d,".toList ++ rest) [(1, name.chars)] := by
  have hquote (rest : List Char) : quote.Reads ['"'] rest [] := reads_one (by decide) rest
  have helement := (hquote _).seq ((reads_comma rfl).seq
    ((reads_elementField name 1 rfl).seq (reads_empty (" /> \x7d,".toList ++ rest))))
  have hfields := (reads_text "path:" _).seq ((reads_blanks rfl).seq
    ((hquote _).seq ((reads_char '*' _).seq helement)))
  exact (isObject_rest.reads hfields rfl).of_eq (by simp) (by simp)

/-- An element and then a path are read. -/
theorem reads_fieldLast (rest : List Char) :
    fieldLast.pattern.Reads ("\x7b element: <".toList ++ (name.chars ++
      (" />, path: \"".toList ++ (path.chars ++ ['"'])))) (" \x7d,".toList ++ rest)
      [(2, path.chars), (1, name.chars)] := by
  have hpath : (chain [char '>', comma, pathField 2]).Reads _ (" \x7d,".toList ++ rest) _ :=
    (reads_char '>' _).seq ((reads_comma rfl).seq ((reads_pathField path 2 _).seq (reads_empty _)))
  have hslash : (char '/').Begins (· == '/') := fun _ h => h
  have hclose := (hslash.failsAt rfl).optional.seq ((reads_noBlanks rfl).seq hpath)
  have hregion : ¬ ">".toList <:+: (">, path: \"".toList ++ (path.chars ++ "\" ".toList)).tail := by
    refine Text.not_infix_of_not_mem (x := '>') (by decide) ?_
    simp [path.not_mem (x := '>') (by decide)]
  have hgap := hclose.needed_gap "\x7d" " /".toList '\x7d' (',' :: rest) (by decide) (by decide)
    ((((opens_char rfl).append.needs (by decide)).after rfl).after rfl) (by simp) hregion
  have hfields := (reads_elementField name 1 rfl).seq hgap
  exact (isObject_last.reads hfields rfl).of_eq (by simp) (by simp)

/-- An object with a component is read. -/
theorem reads_fieldComponent (rest : List Char) :
    fieldComponent.pattern.Reads ("\x7b path: \"".toList ++ (path.chars ++
      ("\", Component: ".toList ++ name.chars))) (" \x7d,".toList ++ rest)
      [(2, name.chars), (1, path.chars)] := by
  have hword : (chain [capture 2 word]).Reads _ (" \x7d,".toList ++ rest) _ :=
    ((reads_many1 name.ne_nil name.forall_isWord rfl).capture 2).seq (reads_empty _)
  have hnext : headIs Text.isBlank (name.chars ++ [] ++ (" \x7d,".toList ++ rest)) = false := by
    rw [append_assoc]
    exact headIs_isBlank_word name.ne_nil name.forall_isWord _
  have hcomponent := (reads_text "Component:" _).seq ((reads_blanks hnext).seq hword)
  have hregion : ¬ "Component:".toList <:+:
      ("Component:".toList ++ (' ' :: (name.chars ++ " ".toList))).tail := by
    refine Text.not_infix_tail (x := ':') (by decide)
      (Text.not_infix_of_not_mem (x := ':') (by decide) ?_)
    simp [name.not_mem (x := ':') (by decide)]
  have hgap := hcomponent.needed_gap "\x7d" ", ".toList '\x7d' (',' :: rest) (by decide) (by decide)
    ((opens_text _).append.needs (by decide)) (by simp) hregion
  have hfields := (reads_pathField path 1 _).seq hgap
  exact (isObject_component.reads hfields rfl).of_eq (by simp) (by simp)

/-- The source of an import is free of quotes. -/
theorem ComponentName.unquoted_source (name : ComponentName) :
    ∀ x ∈ "./pages/".toList ++ name.chars, (!"\"'".toList.contains x) = true := by
  have hdouble : '"' ∉ name.chars := name.not_mem (by decide)
  have hsingle : '\'' ∉ name.chars := name.not_mem (by decide)
  exact unquoted_of_not_mem (by simp [hdouble]) (by simp [hsingle])

/-- A path and then an import are read. -/
theorem reads_fieldLazy (rest : List Char) :
    fieldLazy.pattern.Reads ("\x7b path: \"".toList ++ (path.chars ++
      ("\", lazy: () => import(\"./pages/".toList ++ (name.chars ++ "\")".toList))))
      (" \x7d,".toList ++ rest) [(2, "./pages/".toList ++ name.chars), (1, path.chars)] := by
  have hsource := (reads_quotedAs 2 (by simp) name.unquoted_source _).seq ((reads_noBlanks rfl).seq
    ((reads_char ')' _).seq (reads_empty (" \x7d,".toList ++ rest))))
  have himport := (reads_text "import" _).seq ((reads_noBlanks rfl).seq ((reads_char '(' _).seq
    ((reads_noBlanks rfl).seq hsource)))
  have hlazy := (reads_text "lazy:" _).seq ((reads_blanks rfl).seq ((reads_text "()" _).seq
    ((reads_blanks rfl).seq ((reads_text "=>" _).seq ((reads_blanks rfl).seq himport)))))
  have hregion : ¬ "lazy:".toList <:+: ("lazy:".toList ++ (" () => import(\"./pages/".toList ++
      (name.chars ++ "\") ".toList))).tail := by
    refine Text.not_infix_tail (x := ':') (by decide)
      (Text.not_infix_of_not_mem (x := ':') (by decide) ?_)
    simp [name.not_mem (x := ':') (by decide)]
  have hgap := hlazy.needed_gap "\x7d" ", ".toList '\x7d' (',' :: rest) (by decide) (by decide)
    ((opens_text _).append.needs (by decide)) (by simp) hregion
  have hfields := (reads_pathField path 1 _).seq hgap
  exact (isObject_lazy.reads hfields rfl).of_eq (by simp) (by simp)

/-- A component is named like the file that it is imported from. -/
theorem componentOfImport_source :
    componentOfImport ("./pages/".toList ++ name.chars) = name.chars := by
  have hname : ∀ x ∈ name.chars.reverse, decide (x ≠ '/') = true := by
    intro x hx
    refine decide_eq_true fun heq => name.not_mem (x := '/') (by decide) ?_
    rw [← heq]
    exact mem_reverse.mp hx
  have hlast : Text.afterLast '/' ("./pages/".toList ++ name.chars) = name.chars := by
    rw [Text.afterLast, reverse_append, takeWhile_append_of_pos hname]
    simp
  have hbegins : importedSuffix.Begins (· == '.') := fun _ h => h
  rw [componentOfImport, hlast]
  refine eraseAll_eq_self hbegins fun x hx => ?_
  rw [beq_eq_false_iff_ne]
  rintro rfl
  exact name.not_mem (by decide) hx

end Fields

/-- The field that follows the path in an object with its path first. -/
def Wording.label? : Wording → Option String
  | .fieldPathFirst => some "element"
  | .fieldNamed => some "Component"
  | .fieldImported => some "lazy"
  | .tagPathFirst | .tagElementFirst | .fieldElementFirst => none

/-- What that field is. -/
def Wording.value (component : String) : Wording → String
  | .fieldPathFirst => " <" ++ component ++ " />"
  | .fieldNamed => " " ++ component
  | .fieldImported => " () => import(\"./pages/" ++ component ++ "\")"
  | .tagPathFirst | .tagElementFirst | .fieldElementFirst => ""

namespace Written

variable {d : Written} {label : String}

/-- The part of a line after the path, in an object with its path first. -/
def tail (d : Written) (label : String) : List Char :=
  ", ".toList ++ (label.toList ++ ':' :: ((d.wording.value d.component.text).toList ++ " ".toList))

/-- The line of an object with its path first. -/
theorem toList_line (hd : d.wording.label? = some label) : d.line.toList =
    '\x7b' :: (" ".toList ++ ("path: \"".toList ++ (d.path.chars ++ '"' ::
      (d.tail label ++ "\x7d,".toList)))) := by
  obtain ⟨path, name, wording⟩ := d
  cases wording with
  | fieldPathFirst | fieldNamed | fieldImported =>
    obtain rfl := Option.some.inj hd
    rw [line, toList_append_five]
    unfold tail Wording.value
    simp
  | tagPathFirst | tagElementFirst | fieldElementFirst => cases hd

/-- Fields have only words and the marks around them. -/
theorem not_mem_value (d : Written) {x : Char} (hword : Text.isWord x = false)
    (hfixed : x ∉ " <>()=import\"./pages".toList) :
    x ∉ (d.wording.value d.component.text).toList := by
  obtain ⟨path, name, wording⟩ := d
  have hname : x ∉ name.chars := name.not_mem hword
  unfold Wording.value
  cases wording <;> simp_all

end Written

section Finding

variable {shape : Shape} {first : Char} {others : List Pattern} {d : Written} {label : String}

/-- Nothing is found on an element's line: its brace holds a tag. -/
theorem Shape.IsObject.finds_tag (h : shape.IsObject first others) (hd : d.wording.isTag = true) :
    shape.Finds d.line.toList [] := by
  obtain ⟨path, name, wording⟩ := d
  have hpath : '\x7b' ∉ path.chars := path.not_mem (by decide)
  have hname : '\x7b' ∉ name.chars := name.not_mem (by decide)
  have htag (before after : List Char) (hbefore : '\x7b' ∉ before) (hafter : '\x7b' ∉ after) :
      shape.Finds (before ++ '\x7b' :: '<' :: after) [] := by
    have hrest : shape.Finds ('<' :: after) [] := Shape.finds_quiet h.begins (by simp [hafter])
    refine (Shape.finds_quiet h.begins hbefore).append (hrest.cons fun rest => ?_)
    refine h.failsAt [] rfl rfl (h.field.failsAt ?_)
    exact beq_false_of_ne fun heq => h.notTag heq.symm
  cases wording with
  | tagPathFirst =>
    exact (htag ("<Route path=\"".toList ++ (path.chars ++ "\" element=".toList))
      (name.chars ++ " />\x7d />".toList)
      (by simp [hpath]) (by simp [hname])).of_eq (by rw [Written.line, toList_append_five]; simp)
  | tagElementFirst =>
    exact (htag "<Route element=".toList (name.chars ++ (" />\x7d path=\"".toList ++
      (path.chars ++ "\" />".toList))) (by decide) (by simp [hpath, hname])).of_eq
      (by rw [Written.line, toList_append_five]; simp)
  | fieldPathFirst | fieldElementFirst | fieldNamed | fieldImported => cases hd

/-- Nothing is found in an object whose fields cannot be read. -/
theorem Shape.IsObject.finds_miss (h : shape.IsObject first others) (htext : '\x7b' ∉ text)
    (hstart : ∀ rest, headIs Text.isBlank (text ++ rest) = false)
    (hfails : ∀ rest, (chain others).FailsAt (text ++ rest)) :
    shape.Finds ('\x7b' :: (" ".toList ++ text)) [] := by
  have hrest : shape.Finds (" ".toList ++ text) [] := Shape.finds_quiet h.begins (by simp [htext])
  refine hrest.cons fun rest => ?_
  rw [append_assoc]
  exact h.failsAt " ".toList (by decide) (hstart rest) (hfails rest)

/-- A shape with another field first finds none, element first. -/
theorem Shape.IsObject.finds_elementFirst (h : shape.IsObject first others) (hfirst : first ≠ 'e')
    (hd : d.wording = .fieldElementFirst) : shape.Finds d.line.toList [] := by
  obtain ⟨path, name, wording⟩ := d
  obtain rfl : wording = .fieldElementFirst := hd
  have hmiss : shape.Finds ('\x7b' :: (" ".toList ++ ("element: <".toList ++ (name.chars ++
      (" />, path: \"".toList ++ (path.chars ++ "\" \x7d,".toList)))))) [] := by
    refine h.finds_miss ?_ (fun _ => rfl) fun rest => h.field.failsAt ?_
    · simp [name.not_mem (x := '\x7b') (by decide), path.not_mem (x := '\x7b') (by decide)]
    · exact beq_false_of_ne fun heq => hfirst heq.symm
  exact hmiss.of_eq (by rw [Written.line, toList_append_five]; simp)

/-- With the path first, unreadable fields give nothing. -/
theorem Shape.IsObject.finds_label (h : shape.IsObject first others)
    (hd : d.wording.label? = some label)
    (hfails : ∀ rest, (chain others).FailsAt ("path: \"".toList ++ (d.path.chars ++ '"' ::
      (d.tail label ++ '\x7d' :: rest)))) : shape.Finds d.line.toList [] := by
  have hlabel : '\x7b' ∉ label.toList := by
    obtain ⟨path, name, wording⟩ := d
    cases wording with
    | fieldPathFirst | fieldNamed | fieldImported =>
      obtain rfl := Option.some.inj hd
      decide
    | tagPathFirst | tagElementFirst | fieldElementFirst => cases hd
  rw [Written.toList_line hd]
  refine h.finds_miss ?_ (fun _ => rfl) fun rest => ?_
  · have hvalue := d.not_mem_value (x := '\x7b') (by decide) (by decide)
    simp [Written.tail, d.path.not_mem (x := '\x7b') (by decide), hvalue, hlabel]
  · have hfails := hfails (',' :: rest)
    simpa using hfails

/-- A shape with another field first finds none, path first. -/
theorem Shape.IsObject.finds_label_of_ne (h : shape.IsObject first others) (hfirst : first ≠ 'p')
    (hd : d.wording.label? = some label) : shape.Finds d.line.toList [] := by
  refine h.finds_label hd fun rest => h.field.failsAt ?_
  exact beq_false_of_ne fun heq => hfirst heq.symm

/-- No element follows the path if another field does. -/
theorem failsAt_tail_of_head (index : Nat) {x : Char} {cs : List Char}
    (hlabel : label.toList = x :: cs) (hblank : Text.isBlank x = false) (hx : x ≠ 'e')
    (rest : List Char) :
    (chain [comma, elementField index]).FailsAt (d.tail label ++ '\x7d' :: rest) := by
  rw [Written.tail, append_assoc, hlabel]
  have hbegins : (chain [elementField index]).Begins (· == 'e') := fun _ h => h
  exact failsAt_comma_append hbegins (by decide) hblank (hbegins.failsAt (beq_false_of_ne hx))

/-- A needed field is missing if the next one ends otherwise. -/
theorem failsAt_tail_of_needed {needed : String} (hneeded : Text.EndsOnlyWith ':' needed.toList)
    (hstop : '\x7d' ∉ needed.toList) (hlabel : ':' ∉ ", ".toList ++ label.toList)
    (hend : ¬ needed.toList.dropLast <:+ ", ".toList ++ label.toList) (rest : List Char) :
    (chain (many withinBraces :: Pattern.text needed :: others)).FailsAt
      (d.tail label ++ '\x7d' :: rest) := by
  have hsplit : d.tail label = (", ".toList ++ label.toList) ++ ':' ::
      ((d.wording.value d.component.text).toList ++ " ".toList) := by
    rw [Written.tail, append_assoc]
  refine ((opens_text needed).append.needs hstop).after rfl _ _ ?_
  rw [hsplit]
  refine Text.not_infix_append_cons hneeded hlabel hend (Text.not_infix_of_not_mem (x := ':') ?_ ?_)
  · rw [← hneeded.1]
    exact mem_append_right _ mem_cons_self
  · simp [d.not_mem_value (x := ':') (by decide) (by decide)]

/-- What is found with an element after the path. -/
theorem finds_fieldElement (d : Written) :
    fieldElement.Finds d.line.toList (d.only .fieldPathFirst) := by
  obtain ⟨path, name, wording⟩ := d
  cases wording with
  | tagPathFirst | tagElementFirst => exact isObject_element.finds_tag rfl
  | fieldPathFirst =>
    exact Shape.finds_line (reads_fieldElement path name)
      (by rw [Written.line, toList_append_five]; simp) (by simp)
      (Shape.finds_quiet isObject_element.begins (by decide)) rfl rfl rfl rfl
  | fieldElementFirst => exact isObject_element.finds_elementFirst (by decide) rfl
  | fieldNamed | fieldImported =>
    exact isObject_element.finds_label rfl fun rest =>
      failsAt_pathField_append path (failsAt_tail_of_head 2 rfl (by decide) (by decide) rest)

/-- What is found with an element before the path. -/
theorem finds_fieldLast (d : Written) :
    fieldLast.Finds d.line.toList (d.only .fieldElementFirst) := by
  obtain ⟨path, name, wording⟩ := d
  cases wording with
  | tagPathFirst | tagElementFirst => exact isObject_last.finds_tag rfl
  | fieldElementFirst =>
    exact Shape.finds_line (reads_fieldLast path name)
      (by rw [Written.line, toList_append_five]; simp) (by simp)
      (Shape.finds_quiet isObject_last.begins (by decide)) rfl rfl rfl rfl
  | fieldPathFirst | fieldNamed | fieldImported =>
    exact isObject_last.finds_label_of_ne (by decide) rfl

/-- What is found with an import after the path. -/
theorem finds_fieldLazy (d : Written) : fieldLazy.Finds d.line.toList (d.only .fieldImported) := by
  obtain ⟨path, name, wording⟩ := d
  cases wording with
  | tagPathFirst | tagElementFirst => exact isObject_lazy.finds_tag rfl
  | fieldImported =>
    exact Shape.finds_line (reads_fieldLazy path name)
      (by rw [Written.line, toList_append_five]; simp) (by simp)
      (Shape.finds_quiet isObject_lazy.begins (by decide)) rfl rfl rfl
      (componentOfImport_source name)
  | fieldElementFirst => exact isObject_lazy.finds_elementFirst (by decide) rfl
  | fieldPathFirst | fieldNamed =>
    exact isObject_lazy.finds_label rfl fun rest =>
      failsAt_pathField_append path
        (failsAt_tail_of_needed (by decide) (by decide) (by decide) (by decide) rest)

/-- What is found with a named component after the path. -/
theorem finds_fieldComponent (d : Written) :
    fieldComponent.Finds d.line.toList (d.only .fieldNamed) := by
  obtain ⟨path, name, wording⟩ := d
  cases wording with
  | tagPathFirst | tagElementFirst => exact isObject_component.finds_tag rfl
  | fieldNamed =>
    exact Shape.finds_line (reads_fieldComponent path name)
      (by rw [Written.line, toList_append_five]; simp) (by simp)
      (Shape.finds_quiet isObject_component.begins (by decide)) rfl rfl rfl rfl
  | fieldElementFirst => exact isObject_component.finds_elementFirst (by decide) rfl
  | fieldPathFirst | fieldImported =>
    exact isObject_component.finds_label rfl fun rest =>
      failsAt_pathField_append path
        (failsAt_tail_of_needed (by decide) (by decide) (by decide) (by decide) rest)

/-- No line has an index field. -/
theorem finds_fieldIndex (d : Written) : fieldIndex.Finds d.line.toList [] := by
  obtain ⟨path, name, wording⟩ := d
  cases wording with
  | tagPathFirst | tagElementFirst => exact isObject_index.finds_tag rfl
  | fieldElementFirst => exact isObject_index.finds_elementFirst (by decide) rfl
  | fieldPathFirst | fieldNamed | fieldImported =>
    exact isObject_index.finds_label_of_ne (by decide) rfl

/-- With the path first, only a star before an element is found. -/
theorem finds_fieldRest_of_label (hd : d.wording.label? = some label)
    (h : d.path.chars = ['*'] → ∀ rest, (chain [comma, elementField 1]).FailsAt
      (d.tail label ++ '\x7d' :: rest)) : fieldRest.Finds d.line.toList [] := by
  refine isObject_rest.finds_label hd fun rest => failsAt_pathLabel_append (fun _ h => h) ?_
  exact failsAt_star_append d.path fun hstar => h hstar rest

/-- A path of one star is found once more, with the same route. -/
theorem finds_fieldRest (d : Written) : fieldRest.Finds d.line.toList
    (if d.path.chars = ['*'] then d.only .fieldPathFirst else []) := by
  obtain ⟨path, name, wording⟩ := d
  split
  · next hstar =>
    cases wording with
    | tagPathFirst | tagElementFirst => exact isObject_rest.finds_tag rfl
    | fieldElementFirst => exact isObject_rest.finds_elementFirst (by decide) rfl
    | fieldPathFirst =>
      have hpath : path.text.toList = ['*'] := hstar
      refine (Shape.finds_hit (by simp) (reads_fieldRest name) (fun m hm => ?_)
        (Shape.finds_quiet isObject_rest.begins (by decide))).of_eq
        (by rw [Written.line, toList_append_five, hpath]; simp)
      have hcomponent : String.ofList (m.group 1) = name.text := by
        rw [Match.group, hm]
        exact String.ofList_toList
      have hroute : rooted path.chars = "/*".toList := by
        rw [hstar]
        decide
      change Declaration.mk (String.ofList "/*".toList) (String.ofList (m.group 1)) =
        ⟨(Written.mk path name .fieldPathFirst).route, name.text⟩
      rw [hcomponent, ← hroute, ← Written.ofList_rooted]
    | fieldNamed | fieldImported =>
      exact finds_fieldRest_of_label rfl fun _ =>
        failsAt_tail_of_head 1 rfl (by decide) (by decide)
  · next hstar =>
    cases wording with
    | tagPathFirst | tagElementFirst => exact isObject_rest.finds_tag rfl
    | fieldElementFirst => exact isObject_rest.finds_elementFirst (by decide) rfl
    | fieldPathFirst | fieldNamed | fieldImported =>
      exact finds_fieldRest_of_label rfl fun h => absurd h hstar

end Finding

end SiteAtlas.Route
