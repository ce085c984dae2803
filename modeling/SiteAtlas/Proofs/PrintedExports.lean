import SiteAtlas.Proofs.DeclaredMatchers
import SiteAtlas.Proofs.ImportRoundtrip
import SiteAtlas.Proofs.NeededTexts
import SiteAtlas.Proofs.TrimmedReading

/-!
# Printed exports

Export statements on lines of their own are read by eight forms. A form is read only after `export`
and a blank, so within a statement it can only begin with a name, where the words that follow are
known. All names are found, except that no form reads a default value whose name begins like a word
that it must not be.
-/

namespace SiteAtlas.Source

open List Pattern

variable (s : ExportStatement) (name : Identifier)

/-- The forms that are looked for. -/
inductive ExportForm where
  | defaultFunction
  | defaultValue
  | defaultClass
  | function
  | constant
  | plainClass
  | plainVariable
  | list
  deriving DecidableEq

namespace ExportForm

/-- Whether a form reads the default of a file. -/
def isDefault : ExportForm → Bool
  | defaultFunction | defaultValue | defaultClass => true
  | function | constant | plainClass | plainVariable | list => false

/-- The pattern of a form. -/
def pattern : ExportForm → Pattern
  | defaultFunction => Export.defaultFunction
  | defaultValue => Export.defaultValue
  | defaultClass => Export.defaultClass
  | function => Export.keyword ++ Export.optionalAsync ++ Export.functionKeyword ++ capture 1 word
  | constant => Export.keyword ++ Pattern.text "const" ++ blanks1 ++ capture 1 word
  | plainClass => Export.keyword ++ Pattern.text "class" ++ blanks1 ++ capture 1 word
  | plainVariable => Export.keyword ++ texts ["let", "var"] ++ blanks1 ++ capture 1 word
  | list => Export.listForm

end ExportForm

/-- What is exported under a name of its own. -/
inductive ExportKind where
  | defaultFunction
  | defaultAsync
  | defaultValue
  | defaultClass
  | function
  | asyncFunction
  | constant
  | plainClass
  | letVariable
  | varVariable

namespace ExportKind

/-- The form that a kind is read by. -/
def form : ExportKind → ExportForm
  | defaultFunction | defaultAsync => .defaultFunction
  | defaultValue => .defaultValue
  | defaultClass => .defaultClass
  | function | asyncFunction => .function
  | constant => .constant
  | plainClass => .plainClass
  | letVariable | varVariable => .plainVariable

/-- What is printed before the name. -/
def lead : ExportKind → List Char
  | defaultFunction => "default function ".toList
  | defaultAsync => "default async function ".toList
  | defaultValue => "default ".toList
  | defaultClass => "default class ".toList
  | function => "function ".toList
  | asyncFunction => "async function ".toList
  | constant => "const ".toList
  | plainClass => "class ".toList
  | letVariable => "let ".toList
  | varVariable => "var ".toList

/-- What is printed after the name. -/
def finish : ExportKind → List Char
  | defaultFunction | defaultAsync | function | asyncFunction => "() \x7b\x7d\n".toList
  | defaultValue => ";\n".toList
  | defaultClass | plainClass => " \x7b\x7d\n".toList
  | constant | letVariable | varVariable => " = 1;\n".toList

end ExportKind

/-- An export statement: one name, or the members of a list. -/
inductive ExportStatement where
  | named (kind : ExportKind) (name : Identifier)
  | listed (members : List Specifier)

/-- The name that consumers see for a member of an export list. -/
def Specifier.exportedName (s : Specifier) : Identifier :=
  s.localName.getD s.name

namespace ExportStatement

/-- The printed form of a statement, on a line of its own. -/
def print : ExportStatement → List Char
  | named kind name => "export ".toList ++ (kind.lead ++ (name.text.toList ++ kind.finish))
  | listed members => "export \x7b".toList ++ (printMembers members ++ "\x7d;\n".toList)

/-- Whether a statement exports the default of a file. -/
def isDefault : ExportStatement → Bool
  | named kind _ => kind.form.isDefault
  | listed _ => false

/-- The names that consumers import. -/
def names : ExportStatement → List String
  | named _ name => [name.text]
  | listed members => members.map (·.exportedName.text)

/-- Words that no default value may begin with. -/
def reserved : List String :=
  ["function", "class", "async"]

/-- A default value whose name begins with one of the words. -/
def isOverlooked : ExportStatement → Bool
  | named .defaultValue name => reserved.any (·.toList.isPrefixOf name.text.toList)
  | _ => false

end ExportStatement

/-- A blank is no word character. -/
theorem isWord_eq_false_of_isBlank {x : Char} (h : Text.isBlank x = true) : Text.isWord x = false :=
  Bool.eq_false_iff.mpr fun hword =>
    Bool.noConfusion ((Text.isBlank_eq_false_of_isWord hword).symm.trans h)

namespace Export

variable {form : ExportForm} {others : List Pattern} {q : Pattern} {text rest next : List Char}
  {captured : List (Nat × List Char)}

/-- Every form reads `export` and blanks first. -/
theorem exists_parts (form : ExportForm) : ∃ others,
    form.pattern.parts = char 'e' :: chars "xport".toList :: blanks1 :: others := by
  cases form <;> exact ⟨_, rfl⟩

/-- A form is read only after `export` and a blank. -/
theorem failsAt_of_not_export (form : ExportForm)
    (h : ∀ b more, Text.isBlank b = true → text ≠ "export".toList ++ b :: more) :
    form.pattern.FailsAt text := by
  obtain ⟨others, hparts⟩ := exists_parts form
  apply FailsAt.of_parts
  rw [hparts]
  refine failsAt_char_append fun tail htail => failsAt_text_append (s := "xport") fun more hmore =>
    failsAt_gap_append fun w v hv hlength hw => ?_
  obtain ⟨b, w, rfl⟩ := exists_cons_of_ne_nil (length_pos_iff.mp hlength)
  refine absurd ?_ (h b (w ++ v) (hw b mem_cons_self))
  rw [htail, hmore, hv]
  rfl

/-- No form matches in a text that goes on in a given way. -/
def Quiet (text next : List Char) : Prop :=
  ∀ form : ExportForm, ∀ u, u <:+ text → u ≠ [] → form.pattern.Misses (u ++ next)

/-- Quiet texts in turn are quiet. -/
theorem Quiet.append {more : List Char} (h : Quiet text (more ++ next)) (hmore : Quiet more next) :
    Quiet (text ++ more) next := by
  intro form u hu hne
  obtain ⟨before, hbefore⟩ := hu
  rcases append_eq_append_iff.mp hbefore with ⟨v, rfl, rfl⟩ | ⟨v, rfl, rfl⟩
  · cases v with
    | nil => exact hmore form more suffix_rfl hne
    | cons x v =>
      rw [append_assoc]
      exact h form _ (suffix_append before _) (cons_ne_nil x v)
  · exact hmore form u (suffix_append v u) hne

/-- A name is quiet where no form matches if it ends with `export`. -/
theorem quiet_name (hword : headIs Text.isWord next = false)
    (hnext : ∀ form : ExportForm, form.pattern.Misses ("export".toList ++ next)) :
    Quiet name.text.toList next := by
  intro form u hu hne
  by_cases hexport : u = "export".toList
  · exact hexport ▸ hnext form
  · refine (failsAt_of_not_export form fun b more hb heq => hexport ?_).matchAt_eq_none
    have hu : ∀ x ∈ u, Text.isWord x = true := fun x hx => name.isWord x (hu.mem hx)
    have hb := isWord_eq_false_of_isBlank hb
    cases next with
    | nil =>
      rw [append_nil] at heq
      rw [hu b (by simp [heq])] at hb
      cases hb
    | cons x next => exact (Text.eq_of_cut Text.isWord hu (all_eq_true.mp rfl) hword hb heq).1

/-- Whether no character of a text begins like `export`, whatever follows. -/
def isQuiet : List Char → Bool
  | [] => true
  | x :: rest => (x != 'e' || (!rest.isEmpty && !headIs (· == 'x') rest)) && isQuiet rest

/-- Where none begins, a text is quiet. -/
theorem quiet_of_isQuiet (h : isQuiet text = true) (next : List Char) : Quiet text next := by
  intro form
  induction text with
  | nil => exact fun u hu hne => absurd (suffix_nil.mp hu) hne
  | cons x text ih =>
    obtain ⟨hx, htext⟩ := Bool.and_eq_true_iff.mp h
    intro u hu hne
    rcases suffix_cons_iff.mp hu with rfl | hu
    · refine (failsAt_of_not_export form fun b more _ heq => ?_).matchAt_eq_none
      cases text <;> simp_all [headIs]
    · exact ih htext u hu hne

/-- A member is quiet before what cannot follow `export`. -/
theorem quiet_member (s : Specifier) (hword : headIs Text.isWord next = false)
    (hnext : ∀ form : ExportForm, form.pattern.Misses ("export".toList ++ next)) :
    Quiet s.print next := by
  have hnames : Quiet s.printNames next := by
    unfold Specifier.printNames
    cases s.localName with
    | none => simpa using quiet_name s.name hword hnext
    | some name =>
      refine (quiet_name s.name rfl fun form => ?_).append
        ((quiet_of_isQuiet (by decide) _).append (quiet_name name hword hnext))
      cases form <;> exact fun _ _ => rfl
  unfold Specifier.print
  split
  · exact (quiet_of_isQuiet (by decide) _).append hnames
  · exact hnames

/-- What stands between braces is quiet. -/
theorem quiet_printMembers (members : List Specifier) (rest : List Char) :
    Quiet (printMembers members) ('\x7d' :: rest) := by
  cases members with
  | nil => exact quiet_of_isQuiet rfl _
  | cons m members =>
    have hblank (next : List Char) : Quiet [' '] next := quiet_of_isQuiet rfl next
    refine Quiet.append (Quiet.append (hblank _) ?_) (hblank _)
    induction members generalizing m with
    | nil => exact quiet_member m rfl fun form => by cases form <;> exact fun _ _ => rfl
    | cons other members ih =>
      refine Quiet.append ((quiet_member m rfl fun form => ?_).append
        (quiet_of_isQuiet (by decide) _)) (ih other)
      cases form <;> exact fun _ _ => rfl

/-- No form begins within a statement. -/
theorem quiet_tail (rest : List Char) : Quiet s.print.tail rest := by
  cases s with
  | named kind name =>
    have hlead : isQuiet kind.lead = true := by cases kind <;> rfl
    have hfinish : isQuiet kind.finish = true := by cases kind <;> rfl
    change Quiet ("xport ".toList ++ (kind.lead ++ (name.text.toList ++ kind.finish))) rest
    refine (quiet_of_isQuiet (by decide) _).append ((quiet_of_isQuiet hlead _).append
      ((quiet_name name ?_ fun form => ?_).append (quiet_of_isQuiet hfinish rest)))
    · cases kind <;> rfl
    · cases kind <;> cases form <;> exact fun _ _ => rfl
  | listed members =>
    change Quiet ("xport \x7b".toList ++ (printMembers members ++ "\x7d;\n".toList)) rest
    exact (quiet_of_isQuiet (by decide) _).append
      ((quiet_printMembers members _).append (quiet_of_isQuiet (by decide) rest))

/-- What a form finds in a statement: nothing, or one captured text. -/
inductive Finds (form : ExportForm) (s : ExportStatement) : Option (List Char) → Prop
  | miss (h : ∀ rest, form.pattern.Misses (s.print ++ rest)) : Finds form s none
  | hit (body finish found : List Char) (hprint : s.print = body ++ finish) (hne : body ≠ [])
    (hfinish : isQuiet finish = true)
    (h : ∀ rest, form.pattern.Reads body (finish ++ rest) [(1, found)]) : Finds form s (some found)

/-- A form finds in a text of statements what it finds in each of them. -/
theorem map_group_hitsFrom {pick : ExportStatement → Option (List Char)}
    (hpick : ∀ s, Finds form s (pick s)) (statements : List ExportStatement) (before : List Char)
    (offset : Nat) : (form.pattern.hitsFrom before offset
      (statements.flatMap ExportStatement.print)).map (·.group 1) = statements.filterMap pick := by
  induction statements generalizing before offset with
  | nil => rfl
  | cons s statements ih =>
    rw [flatMap_cons]
    generalize hfound : pick s = found
    cases hfound ▸ hpick s with
    | miss hmisses =>
      rw [hitsFrom_of_misses, ih, filterMap_cons_none hfound]
      intro u hu hne
      have hprint : s.print = 'e' :: s.print.tail := by cases s <;> rfl
      rw [hprint, suffix_cons_iff, ← hprint] at hu
      rcases hu with rfl | hu
      · exact hmisses _
      · exact quiet_tail s _ form u hu hne
    | hit body finish found hprint hne hfinish hreads =>
      obtain ⟨m, hgroups, hhits⟩ := (hreads _).exists_hitsFrom hne before offset
      rw [hprint, append_assoc, hhits,
        hitsFrom_of_misses (quiet_of_isQuiet hfinish _ form), map_cons, ih,
        filterMap_cons_some hfound]
      simp [Match.group, hgroups]

/-- A form is read after `export` and one blank. -/
theorem reads_form
    (hparts : form.pattern.parts = char 'e' :: chars "xport".toList :: blanks1 :: others)
    (hblank : headIs Text.isBlank (text ++ rest) = false)
    (h : (chain others).Reads text rest captured) :
    form.pattern.Reads ("export ".toList ++ text) rest captured := by
  apply Reads.of_parts
  rw [hparts]
  exact ((reads_char 'e' _).seq ((reads_text "xport" _).seq
    ((Import.reads_blanks1 hblank).seq h))).of_eq (by simp) (by simp)

/-- A word and a blank are read before what does not begin with one. -/
theorem reads_keyword (w : String) (hblank : headIs Text.isBlank (text ++ rest) = false)
    (h : (chain others).Reads text rest captured) :
    (chain (Pattern.text w :: blanks1 :: others)).Reads (w.toList ++ ' ' :: text) rest captured :=
  ((reads_text w _).seq ((Import.reads_blanks1 hblank).seq h)).of_eq (by simp) (by simp)

/-- A name is read and captured. -/
theorem reads_name (hrest : headIs Text.isWord rest = false) :
    (chain [capture 1 word]).Reads name.text.toList rest [(1, name.text.toList)] :=
  (((Import.reads_word name hrest).capture 1).seq (reads_empty rest)).of_eq (by simp) rfl

/-- A function is read with its name. -/
theorem reads_function (hrest : headIs Text.isWord rest = false) :
    (chain [optionalAsync, functionKeyword, capture 1 word]).Reads
      ("function ".toList ++ name.text.toList) rest [(1, name.text.toList)] ∧
    (chain [optionalAsync, functionKeyword, capture 1 word]).Reads
      ("async function ".toList ++ name.text.toList) rest [(1, name.text.toList)] := by
  have hplain : (chain [functionKeyword, capture 1 word]).Reads
      ("function".toList ++ ' ' :: name.text.toList) rest [(1, name.text.toList)] :=
    reads_keyword "function" (Import.headIs_isBlank_identifier name rest) (reads_name name hrest)
  have hfails : (Pattern.text "async" ++ blanks1).FailsAt
      ("function".toList ++ ' ' :: name.text.toList ++ rest) :=
    (opens_text _).append.failsAt (by simp)
  have hasync := (reads_text "async" _).seq (Import.reads_blanks1
    (rfl : headIs Text.isBlank ("function".toList ++ ' ' :: name.text.toList ++ rest) = false))
  exact ⟨(hfails.optional.seq hplain).of_eq rfl rfl, (hasync.optional.seq hplain).of_eq rfl rfl⟩

/-- Default values go unread only with a reserved word in front. -/
theorem reads_notAhead {name : Identifier}
    (h : (ExportStatement.named .defaultValue name).isOverlooked = false) (rest : List Char) :
    (notAhead (texts ["function", "class", "async"])).Reads []
      (name.text.toList ++ (";\n".toList ++ rest)) [] := by
  have hfails {w : String} (hw : w.toList.all Text.isWord = true)
      (hmem : w ∈ ExportStatement.reserved) :
      (Pattern.text w).FailsAt (name.text.toList ++ (";\n".toList ++ rest)) := by
    refine (opens_text w).failsAt fun ⟨more, hmore⟩ => any_eq_false.mp h w hmem ?_
    have hsign : ';' ∉ w.toList := fun hmem => absurd (all_eq_true.mp hw _ hmem) (by decide)
    obtain ⟨z, hz, -⟩ := Text.exists_within hsign hmore.symm
    exact List.isPrefixOf_iff_prefix.mpr ⟨z, hz.symm⟩
  rintro c hc
  have hnone : (texts ["function", "class", "async"]).run c some = none := by
    change ((Pattern.text "function").run c some).or (((Pattern.text "class").run c some).or
      ((Pattern.text "async").run c some)) = none
    rw [(hfails rfl (by decide)).run_eq_none hc, (hfails rfl (by decide)).run_eq_none hc,
      (hfails rfl (by decide)).run_eq_none hc]
    rfl
  exact ⟨c, fun k _ => by rw [run, hnone], ⟨rfl, rfl⟩, rfl⟩

/-- The form of a kind reads its name, unless it is overlooked. -/
theorem reads_named (kind : ExportKind) (name : Identifier)
    (h : (ExportStatement.named kind name).isOverlooked = false) (rest : List Char) :
    kind.form.pattern.Reads ("export ".toList ++ (kind.lead ++ name.text.toList))
      (kind.finish ++ rest) [(1, name.text.toList)] := by
  have hblank (rest : List Char) := Import.headIs_isBlank_identifier name rest
  have hfunction (hrest : headIs Text.isWord (kind.finish ++ rest) = false) :=
    reads_function name hrest
  have hname (hrest : headIs Text.isWord (kind.finish ++ rest) = false) := reads_name name hrest
  cases kind with
  | defaultFunction => exact reads_form rfl rfl (reads_keyword "default" rfl (hfunction rfl).1)
  | defaultAsync => exact reads_form rfl rfl (reads_keyword "default" rfl (hfunction rfl).2)
  | defaultValue =>
    exact reads_form rfl rfl (reads_keyword "default" (hblank _)
      (((reads_notAhead h rest).seq (hname rfl)).of_eq rfl rfl))
  | defaultClass =>
    exact reads_form rfl rfl (reads_keyword "default" rfl
      (reads_keyword "class" (hblank _) (hname rfl)))
  | function => exact reads_form rfl rfl (hfunction rfl).1
  | asyncFunction => exact reads_form rfl rfl (hfunction rfl).2
  | constant => exact reads_form rfl rfl (reads_keyword "const" (hblank _) (hname rfl))
  | plainClass => exact reads_form rfl rfl (reads_keyword "class" (hblank _) (hname rfl))
  | letVariable =>
    exact reads_form rfl rfl (((reads_text "let" _).either_left.seq
      ((Import.reads_blanks1 (hblank _)).seq (hname rfl))).of_eq rfl rfl)
  | varVariable =>
    exact reads_form rfl rfl ((((reads_text "var" _).either_right
      ((opens_text "let").failsAt (by simp))).seq
        ((Import.reads_blanks1 (hblank _)).seq (hname rfl))).of_eq rfl rfl)

/-- One blank is read before what does not begin with one. -/
theorem failsAt_blank_append (hblank : headIs Text.isBlank text = false) (h : q.FailsAt text) :
    (blanks1 ++ q).FailsAt (' ' :: text) := by
  refine failsAt_gap_append fun w v hv hlength hw => ?_
  obtain ⟨x, w, rfl⟩ := exists_cons_of_ne_nil (length_pos_iff.mp hlength)
  obtain ⟨-, rfl⟩ := List.cons.inj hv
  cases w with
  | nil => exact h
  | cons y w =>
    have hy : Text.isBlank y = false := hblank
    rw [hw y (by simp)] at hy
    cases hy

/-- A word and a blank are not read where a sign follows. -/
theorem failsAt_keyword_name {w : String} (hw : w.toList.all Text.isWord = true) (name : Identifier)
    (rest : List Char) :
    (Pattern.text w ++ (blanks1 ++ q)).FailsAt (name.text.toList ++ (";\n".toList ++ rest)) := by
  refine failsAt_text_append fun more hmore => failsAt_gap_append fun b v hv hlength hb => ?_
  obtain ⟨x, b, rfl⟩ := exists_cons_of_ne_nil (length_pos_iff.mp hlength)
  have hx := hb x mem_cons_self
  rw [hv] at hmore
  obtain ⟨-, rfl, -⟩ := Text.eq_of_cut Text.isWord name.isWord (all_eq_true.mp hw) (by decide)
    (isWord_eq_false_of_isBlank hx) hmore
  exact absurd hx (by decide)

/-- A default value has no other form whose rest is unreadable. -/
theorem failsAt_defaultValue (hparts : form.pattern.parts = char 'e' ::
      chars "xport".toList :: blanks1 :: Pattern.text "default" :: blanks1 :: others)
    (h : (chain others).FailsAt (name.text.toList ++ (";\n".toList ++ rest))) :
    form.pattern.FailsAt ((ExportStatement.named .defaultValue name).print ++ rest) := by
  apply FailsAt.of_parts
  rw [hparts]
  refine failsAt_char_append fun tail htail =>
    failsAt_text_append (s := "xport") fun more hmore => ?_
  have hprint : (ExportStatement.named .defaultValue name).print ++ rest = 'e' :: ("xport".toList ++
      ' ' :: ("default".toList ++ ' ' :: (name.text.toList ++ ";\n".toList ++ rest))) := rfl
  obtain rfl := (List.cons.inj (hprint.symm.trans htail)).2
  obtain rfl := append_cancel_left hmore
  refine failsAt_blank_append rfl (failsAt_text_append fun more hmore => ?_)
  obtain rfl := append_cancel_left hmore
  rw [append_assoc]
  exact failsAt_blank_append (Import.headIs_isBlank_identifier name _) h

/-- Whether a form reads the name of a statement. -/
def takes (form : ExportForm) (kind : ExportKind) (name : Identifier) : Bool :=
  kind.form == form && !(ExportStatement.named kind name).isOverlooked

/-- No other form matches a statement with one name. -/
theorem misses_named (kind : ExportKind) (name : Identifier) (h : takes form kind name = false)
    (rest : List Char) : form.pattern.Misses ((ExportStatement.named kind name).print ++ rest) := by
  cases kind with
  | defaultValue =>
    cases form with
    | defaultFunction =>
      have hfails {w : String} (hw : w.toList.all Text.isWord = true) (q : Pattern) :
          (Pattern.text w ++ blanks1 ++ q).FailsAt (name.text.toList ++ (";\n".toList ++ rest)) :=
        failsAt_assoc (failsAt_keyword_name hw name rest)
      refine (failsAt_defaultValue name rfl ?_).matchAt_eq_none
      rintro c d hc ⟨e, hoptional, hrest⟩
      rcases reaches_optional hoptional with rfl | hreach
      · exact hfails (w := "function") rfl _ _ d hc hrest
      · exact hfails (w := "async") rfl _ c d hc ⟨e, hreach, hrest⟩
    | defaultClass =>
      exact (failsAt_defaultValue name rfl (failsAt_keyword_name rfl name rest)).matchAt_eq_none
    | defaultValue =>
      have hreserved :
          ExportStatement.reserved.any (·.toList.isPrefixOf name.text.toList) = true := by
        rw [← Bool.not_eq_false']
        exact h
      obtain ⟨w, hw, hprefix⟩ := any_eq_true.mp hreserved
      obtain ⟨z, hz⟩ := List.isPrefixOf_iff_prefix.mp hprefix
      change ExportForm.defaultValue.pattern.Misses
        ("export default ".toList ++ (name.text.toList ++ ";\n".toList) ++ rest)
      rw [← hz]
      simp only [ExportStatement.reserved, mem_cons, not_mem_nil, or_false] at hw
      rcases hw with rfl | rfl | rfl <;> exact fun _ _ => rfl
    | _ => exact fun _ _ => rfl
  | _ => cases form <;> first | (cases h; done) | exact fun _ _ => rfl

/-- What a form finds in a statement. -/
def found (form : ExportForm) : ExportStatement → Option (List Char)
  | .named kind name => if takes form kind name then some name.text.toList else none
  | .listed members =>
    if form == .list && !members.isEmpty then some (printMembers members) else none

/-- A form finds what it should. -/
theorem finds_found (form : ExportForm) (s : ExportStatement) : Finds form s (found form s) := by
  cases s with
  | named kind name =>
    cases htakes : takes form kind name with
    | true =>
      obtain ⟨hform, hfound⟩ := Bool.and_eq_true_iff.mp htakes
      obtain rfl := beq_iff_eq.mp hform
      rw [found, htakes, if_pos rfl]
      refine .hit ("export ".toList ++ (kind.lead ++ name.text.toList)) kind.finish _ ?_
        (cons_ne_nil _ _) (by cases kind <;> rfl) (reads_named kind name (by simpa using hfound))
      unfold ExportStatement.print
      rw [append_assoc, append_assoc]
    | false =>
      rw [found, htakes, if_neg Bool.false_ne_true]
      exact .miss (misses_named kind name htakes)
  | listed members =>
    cases members with
    | nil => cases form <;> exact .miss fun _ _ _ => rfl
    | cons m members =>
      cases form with
      | list =>
        have hmembers (rest : List Char) : (many1 (noneOf "\x7d")).Reads
            (printMembers (m :: members)) ('\x7d' :: rest) [] := by
          refine reads_many1 (cons_ne_nil _ _) (fun x hx => ?_) rfl
          simpa using ne_of_mem_printMembers hx (by decide) (by decide) (by decide)
        refine .hit ("export ".toList ++ ('\x7b' :: (printMembers (m :: members) ++ ['\x7d'])))
          ";\n".toList _ ?_ (cons_ne_nil _ _) rfl fun rest => reads_form rfl rfl ?_
        · unfold ExportStatement.print
          simp
        · exact ((reads_char '\x7b' _).seq (((hmembers _).capture 1).seq
            ((reads_char '\x7d' _).seq (reads_empty _)))).of_eq (by simp) rfl
      | _ => exact .miss fun _ _ _ => rfl

/-- Only the names of a member are left of it. -/
theorem eraseAll_print (s : Specifier) : Import.typeQualifier.eraseAll s.print = s.printNames := by
  unfold Specifier.print
  cases s.isType with
  | true => exact Import.eraseAll_typeQualifier (Import.headIs_isBlank_printNames s)
  | false =>
    have hword := s.takeWhile_printNames
    have hfails : Import.typeQualifier.FailsAt s.printNames := by
      refine failsAt_of_spells fun spelled more hspells heq => s.name.ne_type ?_
      obtain ⟨_, b, rfl, ⟨_, w, rfl, rfl, hw⟩, hb⟩ := hspells
      obtain ⟨hlength, hblank⟩ := spells_loop_one.mp hb
      obtain ⟨x, b, rfl⟩ := exists_cons_of_ne_nil (length_pos_iff.mp hlength)
      have hx : Text.isWord x = false := isWord_eq_false_of_isBlank (hblank x mem_cons_self)
      have htype : ∀ y ∈ "type".toList, Text.isWord y = true := all_eq_true.mp rfl
      rw [← hword, heq, spells_text.mp hw, nil_append, append_assoc,
        takeWhile_append_of_pos htype, cons_append, takeWhile_cons, hx]
      exact append_nil _
    obtain ⟨x, names, hnames⟩ : ∃ x names, s.printNames = x :: names :=
      exists_cons_of_ne_nil fun hnil => s.name.ne_nil (hword.symm.trans (by rw [hnil]; rfl))
    rw [if_neg Bool.false_ne_true, nil_append, hnames, eraseAll, replaceAll, pieces, piecesFrom,
      ← hnames, hfails.matchAt_eq_none, hnames]
    dsimp only
    rw [Import.piecesFrom_typeQualifier, flatMap_cons, flatMap_map]
    exact congrArg (x :: ·) (flatMap_singleton' names)

/-- The name of a member is found that consumers see. -/
theorem memberName_of_trim {item : List Char} {s : Specifier} (h : Text.trim item = s.print) :
    memberName item = s.exportedName.text.toList := by
  unfold memberName
  rw [h, eraseAll_print]
  unfold Specifier.printNames Specifier.exportedName
  cases s.localName with
  | none =>
    have hfails : ∀ u, u <:+ s.name.text.toList → u ≠ [] → renamedMember.FailsAt (u ++ []) := by
      refine fun u hu _ => failsAt_of_spells fun spelled more hspells heq => ?_
      obtain ⟨_, _, rfl, ⟨_, _, rfl, ⟨_, _, rfl, ⟨a, b, rfl, -, hb⟩, -⟩, -⟩, -⟩ := hspells
      obtain ⟨hlength, hblank⟩ := spells_loop_one.mp hb
      obtain ⟨x, b, rfl⟩ := exists_cons_of_ne_nil (length_pos_iff.mp hlength)
      have hx := isWord_eq_false_of_isBlank (hblank x mem_cons_self)
      rw [s.name.isWord x (hu.mem (by rw [← append_nil u, heq]; simp))] at hx
      cases hx
    have hfind : renamedMember.find? (s.name.text.toList ++ []) = none := by
      rw [find?_eq_head?_hitsFrom, hitsFrom_of_failsAt hfails]
      rfl
    dsimp only
    rw [hfind, append_nil]
    rfl
  | some localName =>
    have hlocal : word.Reads localName.text.toList [] [] := Import.reads_word localName rfl
    have hname : word.Reads s.name.text.toList
        ([' '] ++ ("as".toList ++ ([' '] ++ (localName.text.toList ++ [])))) [] :=
      Import.reads_word s.name rfl
    have hreads := ((((hname.capture 1).seq (Import.reads_blanks1 rfl)).seq (reads_text "as" _)).seq
      (Import.reads_blanks1 (Import.headIs_isBlank_identifier localName _))).seq (hlocal.capture 2)
    obtain ⟨m, hfind, hgroups⟩ := hreads.exists_find?_start (by simp)
    have hsplit : s.name.text.toList ++ (" as ".toList ++ localName.text.toList) =
        s.name.text.toList ++ [' '] ++ "as".toList ++ [' '] ++ localName.text.toList ++ [] := by
      simp
    dsimp only
    rw [hsplit, show renamedMember.find? _ = some m from hfind]
    simp [Match.group, hgroups 2]

/-- The names of all members are found. -/
theorem map_memberName {members : List Specifier} (hne : members ≠ []) :
    (Text.splitOn ',' (printMembers members)).map memberName =
      members.map (·.exportedName.text.toList) := by
  have hprinted : members.map Specifier.print ≠ [] := by simpa using hne
  have htrim := map_trim_splitOn hprinted (forall_mem_map.mpr fun s _ => Import.trimmed_print s)
  have hprint : printMembers members =
      ' ' :: Text.join ", ".toList (members.map Specifier.print) ++ [' '] :=
    if_neg (by simpa using hne)
  rw [hprint]
  generalize Text.splitOn ',' _ = items at htrim ⊢
  clear hne hprinted hprint
  induction members generalizing items with
  | nil => rw [map_eq_nil_iff.mp htrim]; rfl
  | cons s members ih =>
    cases items with
    | nil => cases htrim
    | cons item items =>
      obtain ⟨hitem, hitems⟩ := List.cons.inj htrim
      rw [map_cons, map_cons, memberName_of_trim hitem, ih items hitems]

variable {statements : List ExportStatement}

/-- All that a form finds, in order. -/
theorem map_group_findAll (form : ExportForm) (statements : List ExportStatement) :
    (form.pattern.findAll (statements.flatMap ExportStatement.print)).map (·.group 1) =
      statements.filterMap (found form) :=
  map_group_hitsFrom (finds_found form) statements [] 0

/-- What is found in a text of statements. -/
theorem mentions_printed (statements : List ExportStatement) :
    mentions (statements.flatMap ExportStatement.print) =
      [ExportForm.defaultFunction, .defaultValue, .defaultClass].filterMap
          (fun form => (statements.filterMap (found form)).head?) ++
        [ExportForm.function, .constant, .plainClass, .plainVariable].flatMap
          (fun form => statements.filterMap (found form)) ++
        (statements.filterMap (found .list)).flatMap
          fun text => (Text.splitOn ',' text).map memberName := by
  have hdefault : defaultForms =
    [ExportForm.defaultFunction, .defaultValue, .defaultClass].map ExportForm.pattern := rfl
  have hdeclared : declarationForms =
    [ExportForm.function, .constant, .plainClass, .plainVariable].map ExportForm.pattern := rfl
  unfold mentions
  rw [hdefault, hdeclared, filterMap_map, flatMap_map, ← map_group_findAll .list, flatMap_map]
  simp only [Function.comp_def, find?_eq_head?, ← head?_map, map_group_findAll]
  rfl

/-- The forms find a statement's names, unless overlooked. -/
theorem exists_found_iff (name : String) :
    ((∃ form, form ≠ .list ∧ found form s = some name.toList) ∨
      ∃ text, found .list s = some text ∧ name.toList ∈ (Text.splitOn ',' text).map memberName) ↔
      name ∈ s.names ∧ s.isOverlooked = false := by
  cases s with
  | named kind other =>
    have hlist : kind.form ≠ .list := by cases kind <;> decide
    constructor
    · rintro (⟨form, -, hform⟩ | ⟨text, htext, -⟩)
      · obtain ⟨htakes, hname⟩ := Option.ite_none_right_eq_some.mp hform
        have heq := String.toList_inj.mp (Option.some.inj hname)
        exact ⟨mem_singleton.mpr heq.symm, by simpa using (Bool.and_eq_true_iff.mp htakes).2⟩
      · obtain ⟨htakes, -⟩ := Option.ite_none_right_eq_some.mp htext
        exact absurd (beq_iff_eq.mp (Bool.and_eq_true_iff.mp htakes).1) hlist
    · rintro ⟨hname, hfound⟩
      obtain rfl := mem_singleton.mp hname
      exact .inl ⟨kind.form, hlist, by simp [found, takes, hfound]⟩
  | listed members =>
    have hmembers (text : List Char) : found .list (.listed members) = some text ↔
        members ≠ [] ∧ printMembers members = text := by
      cases members <;> simp [found]
    constructor
    · rintro (⟨form, hform, hfound⟩ | ⟨text, htext, hmem⟩)
      · simp [found, hform] at hfound
      · obtain ⟨hne, rfl⟩ := (hmembers text).mp htext
        rw [map_memberName hne] at hmem
        obtain ⟨member, hmember, heq⟩ := mem_map.mp hmem
        exact ⟨mem_map.mpr ⟨member, hmember, String.toList_inj.mp heq⟩, rfl⟩
    · rintro ⟨hname, -⟩
      obtain ⟨member, hmember, rfl⟩ := mem_map.mp hname
      have hne := ne_nil_of_mem hmember
      exact .inr ⟨_, (hmembers _).mpr ⟨hne, rfl⟩, map_memberName hne ▸ mem_map_of_mem hmember⟩

/-- The first of at most one default is every default. -/
theorem head?_found (hdefault : (statements.filter (·.isDefault)).length ≤ 1) {form : ExportForm}
    (hform : form.isDefault = true) (name : List Char) :
    (statements.filterMap (found form)).head? = some name ↔
      name ∈ statements.filterMap (found form) := by
  have hfilter : (statements.filter (·.isDefault)).filterMap (found form) =
      statements.filterMap (found form) := by
    rw [filterMap_filter]
    refine filterMap_congr fun s _ => ite_eq_left_iff.mpr fun hother => Eq.symm ?_
    cases s with
    | named kind other =>
      refine if_neg fun htakes => hother ?_
      rw [← beq_iff_eq.mp (Bool.and_eq_true_iff.mp htakes).1] at hform
      exact hform
    | listed members => cases form <;> first | rfl | cases hform
  have hlength : (statements.filterMap (found form)).length ≤ 1 :=
    hfilter ▸ (length_filterMap_le _ _).trans hdefault
  cases hfound : statements.filterMap (found form) with
  | nil => simp
  | cons first others =>
    rw [hfound, length_cons] at hlength
    rw [eq_nil_of_length_eq_zero (by omega : others.length = 0), head?_cons,
      mem_singleton, Option.some.injEq, eq_comm]

/-- A name is found just where a statement not overlooked has it. -/
theorem mem_mentions_printed (hdefault : (statements.filter (·.isDefault)).length ≤ 1)
    (name : String) : name.toList ∈ mentions (statements.flatMap ExportStatement.print) ↔
      ∃ s ∈ statements, name ∈ s.names ∧ s.isOverlooked = false := by
  simp only [← exists_found_iff]
  rw [mentions_printed, mem_append, mem_append]
  constructor
  · rintro ((h | h) | h)
    · obtain ⟨form, hform, hhead⟩ := mem_filterMap.mp h
      obtain ⟨s, hs, hname⟩ := mem_filterMap.mp (mem_of_head? hhead)
      exact ⟨s, hs, .inl ⟨form, fun h => absurd (h ▸ hform) (by decide), hname⟩⟩
    · obtain ⟨form, hform, hmem⟩ := mem_flatMap.mp h
      obtain ⟨s, hs, hname⟩ := mem_filterMap.mp hmem
      exact ⟨s, hs, .inl ⟨form, fun h => absurd (h ▸ hform) (by decide), hname⟩⟩
    · obtain ⟨text, hmem, hname⟩ := mem_flatMap.mp h
      obtain ⟨s, hs, htext⟩ := mem_filterMap.mp hmem
      exact ⟨s, hs, .inr ⟨text, htext, hname⟩⟩
  · rintro ⟨s, hs, ⟨form, hlist, hform⟩ | ⟨text, htext, hname⟩⟩
    · have hmem := mem_filterMap.mpr ⟨s, hs, hform⟩
      cases hkind : form.isDefault with
      | true =>
        refine .inl (.inl (mem_filterMap.mpr ⟨form, ?_, (head?_found hdefault hkind _).mpr hmem⟩))
        cases form <;> first | decide | cases hkind
      | false =>
        refine .inl (.inr (mem_flatMap.mpr ⟨form, ?_, hmem⟩))
        cases form <;> first | decide | exact absurd rfl hlist | cases hkind
    · exact .inr (mem_flatMap.mpr ⟨text, mem_filterMap.mpr ⟨s, hs, htext⟩, hname⟩)

/-- No exported name is empty. -/
theorem toList_ne_nil_of_mem_names {s : ExportStatement} {name : String} (h : name ∈ s.names) :
    name.toList ≠ [] := by
  cases s with
  | named kind other =>
    obtain rfl := mem_singleton.mp h
    exact other.ne_nil
  | listed members =>
    obtain ⟨member, -, rfl⟩ := mem_map.mp h
    exact member.exportedName.ne_nil

/-- A name is extracted just where such a statement has it. -/
theorem mem_extract_printed (hdefault : (statements.filter (·.isDefault)).length ≤ 1)
    (name : String) : name ∈ extract (statements.flatMap ExportStatement.print) ↔
      ∃ s ∈ statements, name ∈ s.names ∧ s.isOverlooked = false := by
  rw [← mem_mentions_printed hdefault, extract, mem_map]
  constructor
  · rintro ⟨cs, hcs, rfl⟩
    rw [String.toList_ofList]
    exact mem_of_mem_filter ((mem_unique _ cs).mp hcs)
  · intro h
    obtain ⟨s, -, hname, -⟩ := (mem_mentions_printed hdefault name).mp h
    refine ⟨name.toList, (mem_unique _ _).mpr (mem_filter.mpr ⟨h, ?_⟩), String.ofList_toList⟩
    simpa using toList_ne_nil_of_mem_names hname

/-- Of a text of statements with at most one default, every name is extracted once that a statement
not overlooked exports. So the names are those that consumers import unless a default value is
overlooked whose name nothing else exports. -/
theorem printed_names_extracted (statements : List ExportStatement)
    (hdefault : (statements.filter (·.isDefault)).length ≤ 1) :
    (extract (statements.flatMap ExportStatement.print)).Nodup ∧
      (∀ name, name ∈ extract (statements.flatMap ExportStatement.print) ↔
        ∃ s ∈ statements, name ∈ s.names ∧ s.isOverlooked = false) ∧
      ((∀ name, name ∈ extract (statements.flatMap ExportStatement.print) ↔
          ∃ s ∈ statements, name ∈ s.names) ↔
        ∀ s ∈ statements, s.isOverlooked = true → ∀ name ∈ s.names,
          ∃ other ∈ statements, name ∈ other.names ∧ other.isOverlooked = false) := by
  have hnodup : (extract (statements.flatMap ExportStatement.print)).Nodup :=
    (nodup_unique _).map fun _ _ h => String.ofList_inj.mp h
  refine ⟨hnodup, mem_extract_printed hdefault, ?_⟩
  simp only [mem_extract_printed hdefault]
  constructor
  · exact fun h s hs _ name hname => (h name).mpr ⟨s, hs, hname⟩
  · refine fun h name => ⟨fun ⟨s, hs, hname, _⟩ => ⟨s, hs, hname⟩, fun ⟨s, hs, hname⟩ => ?_⟩
    cases hfound : s.isOverlooked with
    | true => exact h s hs hfound name hname
    | false => exact ⟨s, hs, hname, hfound⟩

/-- A name that begins with a reserved word. -/
def classNames : Identifier := ⟨"classNames", by simp, by simp; decide, by simp⟩

/-- Statements that begin and end in similar ways. -/
def panelExports : List ExportStatement :=
  [.named .asyncFunction typedName, .named .defaultValue classNames,
    .listed [⟨fromName, some asName, true⟩, ⟨typedName, none, false⟩]]

/-- Names in and out of lists are extracted, and a default value is not. -/
theorem printed_names_extracted_panelExports : (panelExports.filter (·.isDefault)).length ≤ 1 ∧
    (extract (panelExports.flatMap ExportStatement.print)).Nodup ∧
    "typed" ∈ extract (panelExports.flatMap ExportStatement.print) ∧
    "as" ∈ extract (panelExports.flatMap ExportStatement.print) ∧
    "classNames" ∉ extract (panelExports.flatMap ExportStatement.print) := by
  obtain ⟨hnodup, hmem, -⟩ := printed_names_extracted panelExports (by decide)
  refine ⟨by decide, hnodup, ?_, ?_, ?_⟩
  · exact (hmem _).mpr ⟨.named .asyncFunction typedName, by simp [panelExports], by decide, rfl⟩
  · exact (hmem _).mpr ⟨.listed [⟨fromName, some asName, true⟩, ⟨typedName, none, false⟩],
      by simp [panelExports], by decide, rfl⟩
  · rw [hmem]
    decide

/-- The name of a default value is lost that begins with a reserved word. -/
theorem extract_classNames : extract ((ExportStatement.named .defaultValue classNames).print) = [] ∧
      (ExportStatement.named .defaultValue classNames).names = ["classNames"] :=
  ⟨by decide +kernel, rfl⟩

end Export

end SiteAtlas.Source
