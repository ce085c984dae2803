import SiteAtlas.Export.Dot
import SiteAtlas.Proofs.Surrogates
import Mathlib.Data.List.Forall2

/-!
# Reading graphs back from the DOT language

A graph is read back by a reader that knows nothing but quotes and backslashes. A quote or a
backslash in a name has a backslash before it, so texts end only where they were meant to, and
labels are cut only between kind and name.
-/

namespace SiteAtlas.Dot

open List

/-- What a graph tells: nodes by identifier, kind and name, and edges. -/
structure Graph where
  nodes : List (String × String × String)
  edges : List (String × String × String)
  deriving DecidableEq

/-- What a selection tells. -/
def Graph.ofSelection (s : Selection) : Graph where
  nodes := s.nodes.map fun n => (n.id, n.kind, n.name)
  edges := s.edges.map fun e => (e.source, e.target, e.kind.label)

/-- The texts in quotes, each as its parts between line breaks. -/
def quotedTexts : Option (List String × List Char) → List Char → List (List String)
  | _, [] => []
  | none, '"' :: rest => quotedTexts (some ([], [])) rest
  | none, _ :: rest => quotedTexts none rest
  | some (parts, part), '"' :: rest => (parts ++ [String.ofList part]) :: quotedTexts none rest
  | some (parts, part), '\\' :: 'n' :: rest =>
    quotedTexts (some (parts ++ [String.ofList part], [])) rest
  | some (parts, part), '\\' :: c :: rest => quotedTexts (some (parts, part ++ [c])) rest
  | some (parts, part), c :: rest => quotedTexts (some (parts, part ++ [c])) rest

attribute [local simp] quotedTexts

/-- The graph of quoted texts; a label of two parts is a node's. -/
def Graph.ofTexts : List (List String) → Graph
  | [id] :: [kind, name] :: rest =>
    let graph := ofTexts rest
    { graph with nodes := (id, kind, name) :: graph.nodes }
  | [source] :: [target] :: [kind] :: rest =>
    let graph := ofTexts rest
    { graph with edges := (source, target, kind) :: graph.edges }
  | _ => ⟨[], []⟩

/-- The graph that a text tells. -/
def read (cs : List Char) : Graph :=
  .ofTexts (quotedTexts none cs)

/-- Outside quotes, a part tells given texts, whatever follows. -/
def Tells (cs : List Char) (texts : List (List String)) : Prop :=
  ∀ rest, quotedTexts none (cs ++ rest) = texts ++ quotedTexts none rest

variable {cs more : List Char} {told others : List (List String)}

/-- Parts in a row tell their texts in turn. -/
theorem Tells.append (h : Tells cs told) (hmore : Tells more others) :
    Tells (cs ++ more) (told ++ others) := by
  intro rest
  rw [append_assoc, h, hmore, append_assoc]

/-- What holds no quote tells nothing. -/
theorem tells_plain (h : '"' ∉ cs) : Tells cs [] := by
  intro rest
  induction cs with
  | nil => rfl
  | cons c cs ih =>
    rw [mem_cons, not_or] at h
    have hc : c ≠ '"' := Ne.symm h.1
    rw [cons_append, quotedTexts, ih h.2]
    exact hc

/-- An escaped character is read back. -/
theorem quotedTexts_escapeChar (parts : List String) (part : List Char) (c : Char)
    (rest : List Char) : quotedTexts (some (parts, part)) (escapeChar c ++ rest) =
      quotedTexts (some (parts, part ++ [c])) rest := by
  unfold escapeChar
  split
  · rename_i h
    subst h
    rfl
  · rename_i hbackslash
    split
    · rename_i h
      subst h
      rfl
    · rename_i hquote
      rw [singleton_append, quotedTexts]
      · exact hquote
      · exact fun _ h => absurd h hbackslash
      · exact fun _ _ h => absurd h hbackslash

/-- An escaped text is read back. -/
theorem quotedTexts_escape (parts : List String) (part : List Char) (s : String)
    (rest : List Char) : quotedTexts (some (parts, part)) (escape s ++ rest) =
      quotedTexts (some (parts, part ++ s.toList)) rest := by
  unfold escape
  induction s.toList generalizing part with
  | nil => rw [flatMap_nil, nil_append, append_nil]
  | cons c cs ih =>
    rw [flatMap_cons, append_assoc, quotedTexts_escapeChar, ih, append_assoc, singleton_append]

/-- A quoted text tells itself. -/
theorem tells_quote (s : String) : Tells (quote s) [[s]] := by
  intro rest
  have hopen : quote s ++ rest = '"' :: (escape s ++ '"' :: rest) := by simp [quote]
  rw [hopen, quotedTexts, quotedTexts_escape, quotedTexts, nil_append, nil_append,
    String.ofList_toList]
  rfl

/-- A label tells what is before and after its break. -/
theorem tells_label (kind name : String) :
    Tells ('"' :: escape kind ++ "\\n".toList ++ escape name ++ ['"']) [[kind, name]] := by
  intro rest
  have hopen : '"' :: escape kind ++ "\\n".toList ++ escape name ++ ['"'] ++ rest =
      '"' :: (escape kind ++ '\\' :: 'n' :: (escape name ++ '"' :: rest)) := by simp
  rw [hopen, quotedTexts, quotedTexts_escape, quotedTexts, quotedTexts_escape, quotedTexts,
    nil_append, nil_append, nil_append, String.ofList_toList, String.ofList_toList]
  rfl

/-- The line of a node tells the node. -/
theorem tells_nodeLine (n : Node) : Tells (nodeLine n) [[n.id], [n.kind, n.name]] := by
  have hline : nodeLine n = "  ".toList ++ quote n.id ++ " [label=".toList ++
      ('"' :: escape n.kind ++ "\\n".toList ++ escape n.name ++ ['"']) ++ "];".toList := by
    unfold nodeLine
    simp
  rw [hline]
  exact ((((tells_plain (by simp)).append (tells_quote n.id)).append (tells_plain (by simp))).append
    (tells_label n.kind n.name)).append (tells_plain (by simp))

/-- The line of an edge tells the edge. -/
theorem tells_edgeLine (e : Edge) : Tells (edgeLine e) [[e.source], [e.target], [e.kind.label]] :=
  ((((((tells_plain (by simp)).append (tells_quote e.source)).append
    (tells_plain (by simp))).append (tells_quote e.target)).append
    (tells_plain (by simp))).append (tells_quote e.kind.label)).append (tells_plain (by simp))

/-- Lines tell their texts in order. -/
theorem tells_join {lines : List (List Char)} {told : List (List (List String))}
    (h : List.Forall₂ Tells lines told) : Tells (Text.join ['\n'] lines) told.flatten := by
  induction h with
  | nil => exact tells_plain not_mem_nil
  | @cons line told lines others hline hothers ih =>
    cases lines with
    | nil =>
      obtain rfl := forall₂_nil_left_iff.mp hothers
      simpa [Text.join] using hline
    | cons next lines =>
      have hbreak : Tells ['\n'] [] := tells_plain (by simp)
      have hall := (hline.append hbreak).append ih
      rwa [append_nil] at hall

/-- The text of a graph tells its nodes and then its edges. -/
theorem tells_text (s : Selection) :
    Tells (text s) ((s.nodes.flatMap fun n => [[n.id], [n.kind, n.name]]) ++
      s.edges.flatMap fun e => [[e.source], [e.target], [e.kind.label]]) := by
  have hhead : List.Forall₂ Tells
      ["digraph PageGraph \x7b".toList, "  rankdir=LR;".toList] [[], []] :=
    .cons (tells_plain (by simp)) (.cons (tells_plain (by simp)) .nil)
  have hnodes : List.Forall₂ Tells (s.nodes.map nodeLine)
      (s.nodes.map fun n => [[n.id], [n.kind, n.name]]) :=
    forall₂_map_left_iff.mpr (forall₂_map_right_iff.mpr
      (forall₂_same.mpr fun n _ => tells_nodeLine n))
  have hedges : List.Forall₂ Tells (s.edges.map edgeLine)
      (s.edges.map fun e => [[e.source], [e.target], [e.kind.label]]) :=
    forall₂_map_left_iff.mpr (forall₂_map_right_iff.mpr
      (forall₂_same.mpr fun e _ => tells_edgeLine e))
  have hend : List.Forall₂ Tells ["\x7d".toList] [[]] := .cons (tells_plain (by simp)) .nil
  have hall := tells_join (rel_append (rel_append (rel_append hhead hnodes) hedges) hend)
  simpa [text, lines, List.flatMap] using hall

/-- Edges are told from their texts. -/
theorem ofTexts_edges (edges : List Edge) :
    Graph.ofTexts (edges.flatMap fun e => [[e.source], [e.target], [e.kind.label]]) =
      ⟨[], edges.map fun e => (e.source, e.target, e.kind.label)⟩ := by
  induction edges with
  | nil => rfl
  | cons e edges ih => simp [Graph.ofTexts, ih]

/-- Nodes are told before what follows. -/
theorem ofTexts_nodes (nodes : List Node) (rest : List (List String)) :
    Graph.ofTexts ((nodes.flatMap fun n => [[n.id], [n.kind, n.name]]) ++ rest) =
      ⟨(nodes.map fun n => (n.id, n.kind, n.name)) ++ (Graph.ofTexts rest).nodes,
        (Graph.ofTexts rest).edges⟩ := by
  induction nodes with
  | nil => rfl
  | cons n nodes ih => simp [Graph.ofTexts, ih]

/-- Reading undoes writing, whatever the texts hold. -/
theorem read_text (s : Selection) : read (text s) = .ofSelection s := by
  have htexts := tells_text s []
  have hnil : quotedTexts none [] = [] := rfl
  rw [append_nil, hnil, append_nil] at htexts
  rw [read, htexts, ofTexts_nodes, ofTexts_edges, append_nil]
  rfl

/-- The texts of a graph. -/
def Graph.texts (g : Graph) : List String :=
  (g.nodes ++ g.edges).flatMap fun (a, b, c) => [a, b, c]

/-- No text of a graph holds a surrogate. -/
def Graph.IsPlain [Host] (g : Graph) : Prop :=
  ∀ s ∈ g.texts, Text.IsPlain s.toList

/-- A store whose name looks like the end of its line. -/
def trickyStore : Node := ⟨"store:/s.ts", "store", "a\\n\"];\n  \"b\\", "/s.ts"⟩

example : read (text ⟨[trickyStore], [⟨"\\", "\"", .renders⟩]⟩) =
    ⟨[("store:/s.ts", "store", "a\\n\"];\n  \"b\\")], [("\\", "\"", "renders")]⟩ := by
  decide +kernel

section

attribute [local instance] Host.usual

end

end SiteAtlas.Dot
