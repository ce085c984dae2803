import SiteAtlas.Proofs.RouteLines

/-!
# Routes declared as elements

The four shapes of elements need an attribute before the first closing angle bracket. The tag of a
component has none and that of a route has known ones, so a shape is read in one way or not at all.
-/

namespace SiteAtlas.Route

open List Pattern
open Source.Import (reads_blanks1 reads_noBlanks)

variable {q : Pattern} {text rest : List Char} {captured : List (Nat × List Char)}

/-- No line break is read where the text goes on without a blank. -/
theorem reads_noBreak (hq : q.Reads text rest captured)
    (hstart : headIs Text.isBlank (text ++ rest) = false) :
    (optional (char '\n') ++ (blanks ++ q)).Reads text rest captured := by
  have hfails : (char '\n').FailsAt (text ++ rest) := by
    have hbegins : (char '\n').Begins Text.isBlank := fun x hx => by
      rw [beq_iff_eq.mp hx]
      decide
    exact hbegins.failsAt hstart
  exact (hfails.optional.seq ((reads_noBlanks hstart).seq hq)).of_eq rfl (by simp)

/-- A quoted text is captured. -/
theorem reads_quotedAs (index : Nat) {cs : List Char} (hne : cs ≠ [])
    (hfree : ∀ x ∈ cs, (!"\"'".toList.contains x) = true) (rest : List Char) :
    (quotedAs index).Reads ('"' :: (cs ++ ['"'])) rest [(index, cs)] := by
  have hmany : (many1 (noneOf "\"'")).Reads cs ('"' :: rest) [] :=
    reads_many1 hne hfree (by simp [headIs])
  have hquote (rest : List Char) : quote.Reads ['"'] rest [] := reads_one (by decide) rest
  exact ((hquote _).seq (hmany.capture index)).seq (hquote rest)

/-- A component that begins is read and captured. -/
theorem reads_elementStart (index : Nat) (name : ComponentName) {rest : List Char}
    (hrest : headIs Text.isWord rest = false) :
    (elementStart index).Reads ('<' :: name.chars) rest [(index, name.chars)] :=
  (reads_char '<' _).seq ((reads_many1 name.ne_nil name.forall_isWord hrest).capture index)

/-- An element up to its brace is read. -/
theorem reads_closed (index : Nat) (name : ComponentName) (hq : q.Reads text rest captured) :
    (elementStart index ++ (many withinBraces ++ (char '\x7d' ++ q))).Reads
      ('<' :: (name.chars ++ (" />\x7d".toList ++ text))) rest
      (captured ++ [(index, name.chars)]) := by
  have hgap : (many withinBraces).Reads " />".toList (['\x7d'] ++ text ++ rest) [] :=
    reads_many (all_eq_true.mp rfl) rfl
  exact ((reads_elementStart index name rfl).seq (hgap.seq ((reads_char '\x7d' _).seq hq))).of_eq
    (by simp) (by simp)

/-- A text without quotes can be quoted. -/
theorem unquoted_of_not_mem {cs : List Char} (hdouble : '"' ∉ cs) (hsingle : '\'' ∉ cs) :
    ∀ x ∈ cs, (!"\"'".toList.contains x) = true := by
  intro x hx
  have hne : x ≠ '"' ∧ x ≠ '\'' := ⟨fun h => hdouble (h ▸ hx), fun h => hsingle (h ▸ hx)⟩
  simpa using hne

/-- A path is free of quotes. -/
theorem WrittenPath.unquoted (path : WrittenPath) :
    ∀ x ∈ path.chars, (!"\"'".toList.contains x) = true :=
  unquoted_of_not_mem (path.not_mem (by decide)) (path.not_mem (by decide))

section Tags

variable {shape : Shape} {needed : String} {others : List Pattern}

/-- A shape of elements reads the tag of a route and needs an attribute in it. -/
structure Shape.IsTagged (shape : Shape) (needed : String) (others : List Pattern) : Prop where
  begins : shape.pattern.Begins (· == '<')
  parts : shape.pattern.parts = char '<' :: chars "Route".toList :: others
  needs : (chain others).Needs needed '>'
  equals : '=' ∈ needed.toList

/-- The shape that ends with a brace needs a path. -/
theorem isTagged_closed : taggedClosed.IsTagged "path=" [blanks1, many withinTag, pathAttribute 1,
    many withinTag, Pattern.text "element=\x7b", elementStart 2, many withinBraces,
    char '\x7d'] where
  begins := fun _ h => h
  parts := rfl
  needs := needs_chain_append [blanks1, many withinTag] rfl
    ((opens_text "path=").append.append.needs (by decide))
  equals := by decide

/-- The shape that goes over lines needs a path. -/
theorem isTagged_broken : taggedBroken.IsTagged "path=" [many withinTag, optional (char '\n'),
    blanks, pathAttribute 1, many withinTag, optional (char '\n'), blanks,
    Pattern.text "element=\x7b", elementStart 2] where
  begins := fun _ h => h
  parts := rfl
  needs := needs_chain_append [many withinTag, optional (char '\n'), blanks] rfl
    ((opens_text "path=").append.append.needs (by decide))
  equals := by decide

/-- The shape with a component soon after needs a path. -/
theorem isTagged_near : taggedNear.IsTagged "path=" [blanks1, few withinTag, pathAttribute 1,
    few withinTag, Pattern.text "element=\x7b", blanks, elementStart 2] where
  begins := fun _ h => h
  parts := rfl
  needs := needs_chain_append [blanks1, few withinTag] rfl
    ((opens_text "path=").append.append.needs (by decide))
  equals := by decide

/-- The shape with the path last needs a component. -/
theorem isTagged_last : taggedLast.IsTagged "element=\x7b" [blanks1, few withinTag,
    Pattern.text "element=\x7b", blanks, elementStart 1, many withinBraces, char '\x7d',
    few withinTag, pathAttribute 2] where
  begins := fun _ h => h
  parts := rfl
  needs := needs_chain_append [blanks1, few withinTag] rfl
    ((opens_text "element=\x7b").append.needs (by decide))
  equals := by decide

/-- The name of the tag is read, and then its attributes. -/
theorem Shape.IsTagged.reads (h : shape.IsTagged needed others)
    (hothers : (chain others).Reads text rest captured) :
    shape.pattern.Reads ("<Route".toList ++ text) rest captured := by
  apply Reads.of_parts
  rw [h.parts]
  exact ((reads_char '<' _).seq ((reads_chars "Route".toList _).seq hothers)).of_eq (by simp)
    (by simp)

/-- A tag without the attribute cannot be read. -/
theorem Shape.IsTagged.needs_pattern (h : shape.IsTagged needed others) :
    shape.pattern.Needs needed '>' := by
  apply Needs.of_parts
  rw [h.parts]
  exact needs_chain_append [char '<', chars "Route".toList] rfl h.needs

end Tags

section PathFirst

variable (path : WrittenPath) (name : ComponentName)

/-- Nothing further on in the tag looks like a path attribute. -/
theorem not_infix_path : ¬ "path=".toList <:+: ("path=".toList ++ ('"' :: (path.chars ++
    ("\" element=\x7b<".toList ++ (name.chars ++ " /".toList))))).tail := by
  have hsplit : '"' :: (path.chars ++ ("\" element=\x7b<".toList ++ (name.chars ++ " /".toList))) =
      ('"' :: path.chars ++ "\" element".toList) ++ '=' ::
        ("\x7b<".toList ++ (name.chars ++ " /".toList)) := by simp
  refine Text.not_infix_tail (x := '=') (by decide) ?_
  rw [hsplit]
  refine Text.not_infix_append_cons (by decide) ?_ ?_ ?_
  · simp [path.not_mem (x := '=') (by decide)]
  · exact Text.not_suffix_append _ (by decide) (by decide)
  · refine Text.not_infix_of_not_mem (x := '=') (by decide) ?_
    simp [name.not_mem (x := '=') (by decide)]

/-- Nothing further on in the tag looks like an element attribute. -/
theorem not_infix_element : ¬ "element=\x7b".toList <:+:
    ("element=\x7b".toList ++ ('<' :: (name.chars ++ " /".toList))).tail := by
  refine Text.not_infix_tail (x := '\x7b') (by decide)
    (Text.not_infix_of_not_mem (x := '\x7b') (by decide) ?_)
  simp [name.not_mem (x := '\x7b') (by decide)]

/-- The attribute of a path is read. -/
theorem reads_pathAttribute (index : Nat) (rest : List Char) :
    (pathAttribute index).Reads ("path=\"".toList ++ (path.chars ++ ['"'])) rest
      [(index, path.chars)] :=
  ((reads_text "path=" _).seq (reads_quotedAs index path.ne_nil path.unquoted rest)).of_eq
    (by simp) (by simp)

/-- A closed tag is read. -/
theorem reads_taggedClosed (rest : List Char) :
    taggedClosed.pattern.Reads ("<Route path=\"".toList ++ (path.chars ++
      ("\" element=\x7b<".toList ++ (name.chars ++ " />\x7d".toList)))) rest
      [(2, name.chars), (1, path.chars)] := by
  -- From the end on, as the rest of a pattern settles where a gap before it ends.
  have hend := (reads_text "element=\x7b" _).seq (reads_closed 2 name (reads_empty rest))
  have helement := hend.needed_gap ">" " ".toList '>' ('\x7d' :: rest) (by decide) (by decide)
    ((opens_text _).append.needs (by decide)) (by simp) (not_infix_element name)
  have hpath := ((reads_pathAttribute path 1 _).seq helement).needed_gap ">" [] '>'
    ('\x7d' :: rest) (by decide) (by decide) ((opens_text "path=").append.append.needs (by decide))
    (by simp) (not_infix_path path name)
  exact (isTagged_closed.reads ((reads_blanks1 rfl).seq hpath)).of_eq (by simp) (by simp)

/-- The element is read up to the name of its component. -/
theorem reads_taggedBroken (rest : List Char) :
    taggedBroken.pattern.Reads ("<Route path=\"".toList ++ (path.chars ++
      ("\" element=\x7b<".toList ++ name.chars))) (" />\x7d />".toList ++ rest)
      [(2, name.chars), (1, path.chars)] := by
  have hend : (chain [elementStart 2]).Reads ('<' :: name.chars ++ []) (" />\x7d />".toList ++ rest)
      [(2, name.chars)] :=
    (reads_elementStart 2 name rfl).seq (reads_empty _)
  have helement := (reads_noBreak ((reads_text "element=\x7b" _).seq hend) rfl).needed_gap ">"
    " ".toList '>' ("\x7d />".toList ++ rest) (by decide) (by decide)
    ((((opens_text _).append.needs (by decide)).after rfl).after rfl) (by simp)
    (not_infix_element name)
  have hpath := (reads_noBreak ((reads_pathAttribute path 1 _).seq helement) rfl).needed_gap ">"
    " ".toList '>' ("\x7d />".toList ++ rest) (by decide) (by decide)
    ((((opens_text "path=").append.append.needs (by decide)).after rfl).after rfl)
    (by simp) (not_infix_path path name)
  exact (isTagged_broken.reads hpath).of_eq (by simp) (by simp)

/-- The element is read up to the name of its component. -/
theorem reads_taggedNear (rest : List Char) :
    taggedNear.pattern.Reads ("<Route path=\"".toList ++ (path.chars ++
      ("\" element=\x7b<".toList ++ name.chars))) (" />\x7d />".toList ++ rest)
      [(2, name.chars), (1, path.chars)] := by
  have hend : (chain [blanks, elementStart 2]).Reads ([] ++ ('<' :: name.chars ++ []))
      (" />\x7d />".toList ++ rest) [(2, name.chars)] :=
    (reads_noBlanks rfl).seq ((reads_elementStart 2 name rfl).seq (reads_empty _))
  have helement : (few withinTag ++ _).Reads _ _ _ :=
    ((reads_text "element=\x7b" _).seq hend).lazy_gap_of_begins " ".toList (· == 'e')
      (by decide) (fun _ h => h) (by decide)
  have hpath : (few withinTag ++ _).Reads _ _ _ :=
    ((reads_pathAttribute path 1 _).seq helement).lazy_gap_of_begins [] (· == 'p') rfl
      (fun _ h => h) rfl
  exact (isTagged_near.reads ((reads_blanks1 rfl).seq hpath)).of_eq (by simp) (by simp)

end PathFirst

section PathLast

variable (path : WrittenPath) (name : ComponentName)

/-- The element is read up to its path. -/
theorem reads_taggedLast (rest : List Char) :
    taggedLast.pattern.Reads ("<Route element=\x7b<".toList ++ (name.chars ++
      (" />\x7d path=\"".toList ++ (path.chars ++ ['"'])))) rest
      [(2, path.chars), (1, name.chars)] := by
  have hlast : (chain [pathAttribute 2]).Reads _ rest _ :=
    (reads_pathAttribute path 2 rest).seq (reads_empty rest)
  have hpath : (few withinTag ++ _).Reads _ _ _ :=
    hlast.lazy_gap_of_begins " ".toList (· == 'p') (by decide) (fun _ h => h) (by decide)
  have helement : (few withinTag ++ _).Reads _ _ _ :=
    ((reads_text "element=\x7b" _).seq ((reads_noBlanks rfl).seq
      (reads_closed 1 name hpath))).lazy_gap_of_begins [] (· == 'e') rfl (fun _ h => h) rfl
  exact (isTagged_last.reads ((reads_blanks1 rfl).seq helement)).of_eq (by simp) (by simp)

/-- With its path first an element is not read as one with its path last: no path follows the
component's brace. -/
theorem failsAt_taggedLast (rest : List Char) :
    taggedLast.pattern.FailsAt ("<Route path=\"".toList ++ (path.chars ++
      ("\" element=\x7b<".toList ++ (name.chars ++ (" />\x7d />".toList ++ rest))))) := by
  apply FailsAt.of_parts
  change (chain ([char '<', chars "Route".toList, blanks1, few withinTag] ++
    ([Pattern.text "element=\x7b", blanks, elementStart 1, many withinBraces] ++
    [char '\x7d', few withinTag, pathAttribute 2]))).FailsAt _
  have hsplit : "<Route path=\"".toList ++ (path.chars ++ ("\" element=\x7b<".toList ++
      (name.chars ++ (" />\x7d />".toList ++ rest)))) = ("<Route path=\"".toList ++ (path.chars ++
      ("\" element=\x7b<".toList ++ (name.chars ++ " /".toList)))) ++ '>' :: '\x7d' ::
      (" /".toList ++ '>' :: rest) := by simp
  rw [hsplit]
  refine failsAt_chain_append '>' _ rfl fun z hz => ?_
  rw [append_cons z]
  refine failsAt_chain_append '\x7d' _ rfl fun u hu => ?_
  refine failsAt_char_append fun more hmore => ?_
  -- No brace is closed before the component is.
  have hfree : '\x7d' ∉ u := by
    intro hmem
    rcases mem_append.mp (hu.mem hmem) with hmem | hmem
    · have hregion := hz.mem hmem
      simp [path.not_mem (x := '\x7d') (by decide),
        name.not_mem (x := '\x7d') (by decide)] at hregion
    · simp at hmem
  cases u with
  | nil =>
    obtain rfl := (List.cons.inj hmore).2
    refine ((opens_text "path=").append.append.needs (by decide)).after rfl _ _ ?_
    decide
  | cons y u =>
    obtain rfl := (List.cons.inj hmore).1
    exact absurd mem_cons_self hfree

end PathLast

section Finding

variable {shape : Shape} {needed : String} {others : List Pattern}

/-- Nothing is found in the tag of a component. -/
theorem Shape.IsTagged.finds_component (h : shape.IsTagged needed others) (name : ComponentName)
    (before after : List Char) (hbefore : '<' ∉ before) (hafter : '<' ∉ after) :
    shape.Finds (before ++ '<' :: (name.chars ++ (" />".toList ++ after))) [] := by
  have hrest : shape.Finds (name.chars ++ (" />".toList ++ after)) [] := by
    refine Shape.finds_quiet h.begins ?_
    simp [name.not_mem (x := '<') (by decide), hafter]
  refine (Shape.finds_quiet h.begins hbefore).append (hrest.cons fun rest => ?_)
  have hsplit : '<' :: (name.chars ++ (" />".toList ++ after) ++ rest) =
      '<' :: (name.chars ++ " /".toList) ++ '>' :: (after ++ rest) := by simp
  rw [hsplit]
  refine h.needs_pattern _ _ (Text.not_infix_of_not_mem h.equals ?_)
  simp [name.not_mem (x := '=') (by decide)]

/-- Nothing is found on the line of an object. -/
theorem Shape.IsTagged.finds_object (h : shape.IsTagged needed others) {d : Written}
    (hd : d.wording.isTag = false) : shape.Finds d.line.toList [] := by
  obtain ⟨path, name, wording⟩ := d
  have hpath : '<' ∉ path.chars := path.not_mem (by decide)
  have hname : '<' ∉ name.chars := name.not_mem (by decide)
  cases wording with
  | tagPathFirst | tagElementFirst => cases hd
  | fieldPathFirst =>
    exact (h.finds_component name ("\x7b path: \"".toList ++ (path.chars ++
      "\", element: ".toList)) " \x7d,".toList (by simp [hpath]) (by decide)).of_eq
      (by rw [Written.line, toList_append_five]; simp)
  | fieldElementFirst =>
    exact (h.finds_component name "\x7b element: ".toList (", path: \"".toList ++
      (path.chars ++ "\" \x7d,".toList)) (by decide) (by simp [hpath])).of_eq
      (by rw [Written.line, toList_append_five]; simp)
  | fieldNamed | fieldImported =>
    refine Shape.finds_quiet h.begins ?_
    rw [Written.line, toList_append_five]
    simp [hpath, hname]

/-- A shape reads its tag, path first. -/
theorem Shape.IsTagged.finds_pathFirst (h : shape.IsTagged "path=" others)
    (before after : List Char) (hroute : shape.route = .captured 1)
    (hcomponent : shape.component = 2) (hnamed : shape.fromImport = false)
    (hsplit : " />\x7d />".toList = before ++ after)
    (hreads : ∀ (path : WrittenPath) (name : ComponentName) (rest : List Char),
      shape.pattern.Reads ("<Route path=\"".toList ++ (path.chars ++ ("\" element=\x7b<".toList ++
        (name.chars ++ before)))) (after ++ rest) [(2, name.chars), (1, path.chars)])
    (d : Written) : shape.Finds d.line.toList (d.only .tagPathFirst) := by
  obtain ⟨path, name, wording⟩ := d
  cases wording with
  | tagPathFirst =>
    have hfree : '<' ∉ before ++ after := hsplit ▸ by decide
    have hquiet := Shape.finds_quiet h.begins fun hmem => hfree (mem_append_right before hmem)
    exact Shape.finds_line (hreads path name)
      (by rw [Written.line, toList_append_five, hsplit]; simp) (by simp) hquiet hroute rfl
      (by rw [hcomponent]; rfl) (by rw [hnamed]; rfl)
  | tagElementFirst =>
    refine ((h.finds_component name "Route element=\x7b".toList ("\x7d path=\"".toList ++
      (path.chars ++ "\" />".toList)) (by decide) ?_).cons (x := '<') fun rest => ?_).of_eq
      (by rw [Written.line, toList_append_five]; simp)
    · simp [path.not_mem (x := '<') (by decide)]
    · have hregion : '<' :: ("Route element=\x7b".toList ++ '<' :: (name.chars ++
          (" />".toList ++ ("\x7d path=\"".toList ++ (path.chars ++ "\" />".toList)))) ++ rest) =
          ("<Route element".toList ++ '=' :: ("\x7b<".toList ++ (name.chars ++ " /".toList))) ++
            '>' :: ("\x7d path=\"".toList ++ (path.chars ++ ("\" />".toList ++ rest))) := by simp
      rw [hregion]
      refine h.needs_pattern _ _ (Text.not_infix_append_cons (by decide) (by decide) (by decide) ?_)
      refine Text.not_infix_of_not_mem (x := '=') (by decide) ?_
      simp [name.not_mem (x := '=') (by decide)]
  | fieldPathFirst | fieldElementFirst | fieldNamed | fieldImported => exact h.finds_object rfl

/-- What is found up to the brace that closes the component. -/
theorem finds_taggedClosed (d : Written) :
    taggedClosed.Finds d.line.toList (d.only .tagPathFirst) :=
  isTagged_closed.finds_pathFirst " />\x7d".toList " />".toList rfl rfl rfl (by decide)
    (fun path name rest => reads_taggedClosed path name _) d

/-- What is found on one line or more. -/
theorem finds_taggedBroken (d : Written) :
    taggedBroken.Finds d.line.toList (d.only .tagPathFirst) :=
  isTagged_broken.finds_pathFirst [] " />\x7d />".toList rfl rfl rfl rfl
    (fun path name rest => (reads_taggedBroken path name rest).of_eq (by simp) rfl) d

/-- What is found with the component soon after. -/
theorem finds_taggedNear (d : Written) : taggedNear.Finds d.line.toList (d.only .tagPathFirst) :=
  isTagged_near.finds_pathFirst [] " />\x7d />".toList rfl rfl rfl rfl
    (fun path name rest => (reads_taggedNear path name rest).of_eq (by simp) rfl) d

/-- What is found with the path last. -/
theorem finds_taggedLast (d : Written) :
    taggedLast.Finds d.line.toList (d.only .tagElementFirst) := by
  obtain ⟨path, name, wording⟩ := d
  cases wording with
  | tagPathFirst =>
    refine ((isTagged_last.finds_component name ("Route path=\"".toList ++ (path.chars ++
      "\" element=\x7b".toList)) "\x7d />".toList ?_ (by decide)).cons (x := '<')
      fun rest => ?_).of_eq
      (by rw [Written.line, toList_append_five]; simp)
    · simp [path.not_mem (x := '<') (by decide)]
    · have hfails := failsAt_taggedLast path name rest
      simpa using hfails
  | tagElementFirst =>
    exact Shape.finds_line (fun rest => reads_taggedLast path name (" />".toList ++ rest))
      (by rw [Written.line, toList_append_five]; simp) (by simp)
      (Shape.finds_quiet isTagged_last.begins (by decide)) rfl rfl rfl rfl
  | fieldPathFirst | fieldElementFirst | fieldNamed | fieldImported =>
    exact isTagged_last.finds_object rfl

end Finding

end SiteAtlas.Route
