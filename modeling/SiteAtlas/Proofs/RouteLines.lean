import SiteAtlas.Proofs.NeededTexts
import SiteAtlas.Proofs.PrintedImports
import SiteAtlas.Route.Declaration

/-!
# Lines that declare routes

A route and its component can be written in six ways. What a shape finds in a file is what it finds
in its lines, provided that this does not depend on the lines around.
-/

namespace SiteAtlas.Route

open List Pattern

/-- Characters of a written path. -/
def isPathChar (x : Char) : Bool :=
  x.isAlphanum || "/:*-_".toList.contains x

/-- A path as it is written. -/
structure WrittenPath where
  text : String
  ne_nil : text.toList ≠ []
  plain : text.toList.all isPathChar = true

/-- The name of a component: a word that begins with a capital letter. -/
structure ComponentName where
  text : String
  capital : headIs Char.isUpper text.toList = true
  isWord : text.toList.all Text.isWord = true

/-- The ways to write a declaration. -/
inductive Wording where
  /-- An element with its path before its component. -/
  | tagPathFirst
  /-- An element with its component before its path. -/
  | tagElementFirst
  /-- An object with its path before its component. -/
  | fieldPathFirst
  /-- An object with its component before its path. -/
  | fieldElementFirst
  /-- An object that names its component. -/
  | fieldNamed
  /-- An object that imports its component. -/
  | fieldImported
  deriving DecidableEq

/-- Whether a wording is that of an element. -/
def Wording.isTag : Wording → Bool
  | .tagPathFirst | .tagElementFirst => true
  | .fieldPathFirst | .fieldElementFirst | .fieldNamed | .fieldImported => false

/-- A declaration as it is written. -/
structure Written where
  path : WrittenPath
  component : ComponentName
  wording : Wording

namespace Written

/-- A declaration on a line. -/
def line (d : Written) : String :=
  match d.wording with
  | .tagPathFirst =>
    "<Route path=\"" ++ d.path.text ++ "\" element=\x7b<" ++ d.component.text ++ " />\x7d />"
  | .tagElementFirst =>
    "<Route element=\x7b<" ++ d.component.text ++ " />\x7d path=\"" ++ d.path.text ++ "\" />"
  | .fieldPathFirst =>
    "\x7b path: \"" ++ d.path.text ++ "\", element: <" ++ d.component.text ++ " /> \x7d,"
  | .fieldElementFirst =>
    "\x7b element: <" ++ d.component.text ++ " />, path: \"" ++ d.path.text ++ "\" \x7d,"
  | .fieldNamed =>
    "\x7b path: \"" ++ d.path.text ++ "\", Component: " ++ d.component.text ++ " \x7d,"
  | .fieldImported =>
    "\x7b path: \"" ++ d.path.text ++ "\", lazy: () => import(\"./pages/" ++ d.component.text ++
      "\") \x7d,"

/-- The declared route: the path after a slash. -/
def route (d : Written) : String :=
  if headIs (· == '/') d.path.text.toList then d.path.text else "/" ++ d.path.text

/-- What is declared. -/
def declaration (d : Written) : Declaration :=
  ⟨d.route, d.component.text⟩

/-- A written path is rooted as it is declared. -/
theorem ofList_rooted (d : Written) : String.ofList (rooted d.path.text.toList) = d.route := by
  have hslash (cs : List Char) : "/".toList.isPrefixOf cs = headIs (· == '/') cs := by
    cases cs with
    | nil => rfl
    | cons x cs =>
      change ('/' == x && true) = (x == '/')
      rw [Bool.and_true, BEq.comm]
  unfold rooted route
  rw [hslash]
  split
  · exact String.ofList_toList
  · exact String.toList_inj.mp (by simp)

/-- The declaration, provided that it is written in a certain way. -/
def only (d : Written) (wording : Wording) : List Declaration :=
  if d.wording = wording then [d.declaration] else []

end Written

/-- The characters of a line of five parts. -/
theorem toList_append_five (a b c d e : String) : (a ++ b ++ c ++ d ++ e).toList =
    a.toList ++ (b.toList ++ (c.toList ++ (d.toList ++ e.toList))) := by
  simp only [String.toList_append, append_assoc]

/-- The characters of a path. -/
abbrev WrittenPath.chars (path : WrittenPath) : List Char :=
  path.text.toList

/-- The characters of a name. -/
abbrev ComponentName.chars (name : ComponentName) : List Char :=
  name.text.toList

/-- A path has path characters only. -/
theorem WrittenPath.not_mem (path : WrittenPath) {x : Char} (h : isPathChar x = false) :
    x ∉ path.chars :=
  fun hmem => Bool.noConfusion (h.symm.trans (all_eq_true.mp path.plain x hmem))

/-- A component's name is a word. -/
theorem ComponentName.forall_isWord (name : ComponentName) :
    ∀ x ∈ name.chars, Text.isWord x = true :=
  all_eq_true.mp name.isWord

/-- A component's name holds nothing else. -/
theorem ComponentName.not_mem (name : ComponentName) {x : Char} (h : Text.isWord x = false) :
    x ∉ name.chars :=
  fun hmem => Bool.noConfusion (h.symm.trans (name.forall_isWord x hmem))

/-- A component's name is not empty. -/
theorem ComponentName.ne_nil (name : ComponentName) : name.chars ≠ [] := by
  intro hnil
  have hcapital : headIs Char.isUpper name.chars = true := name.capital
  rw [hnil] at hcapital
  cases hcapital

namespace Shape

variable {shape : Shape} {text more : List Char} {found others : List Declaration}

/-- What a shape finds from a position on. -/
def foundFrom (shape : Shape) (before : List Char) (offset : Nat) (cs : List Char) :
    List Declaration :=
  ((shape.pattern.piecesFrom 0 before offset cs).filterMap Piece.hit?).map shape.declaration

/-- In a part, a shape finds given declarations, whatever is around. -/
def Finds (shape : Shape) (text : List Char) (found : List Declaration) : Prop :=
  ∀ before offset rest, shape.foundFrom before offset (text ++ rest) =
    found ++ shape.foundFrom (text.reverse ++ before) (offset + text.length) rest

/-- In nothing a shape finds nothing. -/
theorem finds_nil (shape : Shape) : shape.Finds [] [] :=
  fun _ _ _ => rfl

/-- Equal texts have equal findings. -/
theorem Finds.of_eq (h : shape.Finds text found) (heq : more = text) : shape.Finds more found :=
  heq ▸ h

/-- What a shape finds in two parts. -/
theorem Finds.append (h : shape.Finds text found) (hmore : shape.Finds more others) :
    shape.Finds (text ++ more) (found ++ others) := by
  intro before offset rest
  rw [append_assoc, h, hmore, append_assoc, reverse_append, append_assoc,
    length_append, Nat.add_assoc]

/-- A shape finds nothing where its first character is missing. -/
theorem finds_quiet {x : Char} (hbegins : shape.pattern.Begins (· == x)) (h : x ∉ text) :
    shape.Finds text [] := by
  intro before offset rest
  have hfree : ∀ y ∈ text, (y == x) = false := fun y hy => beq_false_of_ne fun heq => h (heq ▸ hy)
  have hnone : text.filterMap (Piece.hit? ∘ Piece.plain) = [] :=
    filterMap_eq_nil_iff.mpr fun _ _ => rfl
  rw [foundFrom, piecesFrom_plain hbegins hfree, filterMap_append, filterMap_map, hnone]
  rfl

/-- A character is passed if the shape cannot be read from there on. -/
theorem Finds.cons {x : Char} (h : shape.Finds text found)
    (hfails : ∀ rest, shape.pattern.FailsAt (x :: (text ++ rest))) :
    shape.Finds (x :: text) found := by
  intro before offset rest
  have hplain : shape.foundFrom before offset (x :: (text ++ rest)) =
      shape.foundFrom (x :: before) (offset + 1) (text ++ rest) := by
    rw [foundFrom, piecesFrom, (hfails rest).matchAt_eq_none]
    rfl
  rw [cons_append, hplain, h, reverse_cons, append_assoc, length_cons,
    Nat.add_comm text.length, Nat.add_assoc]
  rfl

/-- A shape that is read finds its captures, and no more. -/
theorem finds_hit {captured : List (Nat × List Char)} {d : Declaration} (hne : text ≠ [])
    (hreads : ∀ rest, shape.pattern.Reads text (more ++ rest) captured)
    (hd : ∀ m : Match, (∀ index, m.group? index = captured.lookup index) → shape.declaration m = d)
    (hmore : shape.Finds more []) : shape.Finds (text ++ more) [d] := by
  intro before offset rest
  obtain ⟨m, hmatch, htext, hgroups⟩ := (hreads rest).exists_matchAt before offset
  have hfirst : shape.foundFrom before offset (text ++ (more ++ rest)) =
      d :: shape.foundFrom (text.reverse ++ before) (offset + text.length) (more ++ rest) := by
    rw [foundFrom, piecesFrom_hit hne hmatch htext, filterMap_cons]
    change shape.declaration m :: _ = _
    rw [hd m hgroups]
    rfl
  rw [append_assoc, hfirst, hmore, reverse_append, append_assoc, length_append, Nat.add_assoc]
  rfl

/-- On a line that a shape reads it finds the declaration. -/
theorem finds_line {captured : List (Nat × List Char)} {index : Nat} {d : Written}
    {source : List Char} (hreads : ∀ rest, shape.pattern.Reads text (more ++ rest) captured)
    (hline : d.line.toList = text ++ more) (hne : text ≠ []) (hmore : shape.Finds more [])
    (hroute : shape.route = .captured index) (hpath : captured.lookup index = some d.path.chars)
    (hcomponent : captured.lookup shape.component = some source)
    (hsource : (if shape.fromImport then componentOfImport source else source) =
      d.component.chars) : shape.Finds d.line.toList [d.declaration] := by
  refine (finds_hit hne hreads (fun m hm => ?_) hmore).of_eq hline
  unfold declaration Written.declaration
  rw [hroute]
  simp only [Match.group, hm, hpath, hcomponent, Option.getD_some, hsource]
  rw [String.ofList_toList, d.ofList_rooted]

/-- What a shape finds in a text. -/
theorem Finds.declarations_eq (h : shape.Finds text found) :
    shape.declarations text = found.map fun d => (d, shape.route == .index) := by
  have hfound := h [] 0 []
  rw [append_nil] at hfound
  have hall : (shape.pattern.findAll text).map shape.declaration = found := by
    rw [← append_nil found]
    exact hfound
  rw [declarations, ← hall, map_map]
  rfl

end Shape

end SiteAtlas.Route
