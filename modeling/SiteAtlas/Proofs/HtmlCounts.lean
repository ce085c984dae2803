import SiteAtlas.Proofs.DotText
import SiteAtlas.Proofs.HtmlText
import SiteAtlas.Proofs.Selecting
import Mathlib.Algebra.BigOperators.Group.List.Basic
import Mathlib.Algebra.GroupWithZero.Nat

/-!
# What a page shows, and how often

Occurrences in a page are counted element by element: names and paths add none. So there are as
many items of nodes and as many arrows as selected nodes and edges.
-/

namespace SiteAtlas

open List

variable {e : Element} {s : Selection}

variable (c : Catalog) (nodes : List Node)

namespace Text

/-- No occurrence of a part begins in a text before another. -/
def Free (part : List Char) : List Char → List Char → Prop
  | [], _ => True
  | c :: cs, rest => ¬ part <+: c :: (cs ++ rest) ∧ Free part cs rest

variable {part a b rest : List Char} {x : Char}

/-- Nothing is free of parts. -/
@[simp] theorem free_nil : Free part [] rest := trivial

/-- A part does not begin where what follows its first character does not. -/
theorem Free.cons (ha : Free part a rest) (hrest : ¬ part <+: rest) : Free (x :: part) a rest := by
  induction a with
  | nil => trivial
  | cons c a ih =>
    refine ⟨fun hprefix => ?_, ih ha.2⟩
    have hnext : part <+: a ++ rest := (cons_prefix_cons.mp hprefix).2
    cases a with
    | nil => exact hrest hnext
    | cons d a => exact ha.2.1 hnext

end Text

namespace Html

open Text

/-- A tag follows, or nothing. -/
def TagNext (rest : List Char) : Prop :=
  ∀ c ∈ rest.head?, c = '<'

/-- Elements add a number of occurrences to a page. -/
def Adds (part : String) (es : List Element) (n : Nat) : Prop :=
  ∀ rest, TagNext rest → countText part (es.flatMap Element.print ++ rest) = n + countText part rest

variable {part : String} {es others : List Element} {m n : Nat}

/-- Before an element, a tag follows. -/
theorem tagNext_print (es : List Element) {rest : List Char} (h : TagNext rest) :
    TagNext (es.flatMap Element.print ++ rest) := by
  cases es with
  | nil => exact h
  | cons e es =>
    intro c hc
    simpa [Element.print] using hc.symm

/-- Elements add their numbers one after the other. -/
theorem Adds.append (h : Adds part es m) (hothers : Adds part others n) :
    Adds part (es ++ others) (m + n) := by
  intro rest hrest
  rw [flatMap_append, append_assoc, h _ (tagNext_print others hrest), hothers rest hrest,
    Nat.add_assoc]

/-- The arrow without its first blank. -/
abbrev arrow : List Char :=
  '&' :: "rarr; ".toList

section

attribute [local instance] Host.usual

end

end Html

end SiteAtlas
