import SiteAtlas.Export.Html
import SiteAtlas.Proofs.ImportRoundtrip

/-!
# Reading exported pages back

A page is a row of tags, each with a text after it. No angle bracket and no quote of a name or path
gets into it, so its tags are those that were written. Headings, nodes with their files, and edges
are read back.
-/

namespace SiteAtlas.Html

open List

variable (c : Catalog) (s : Selection) (n : Node)

/-- A text with references replaced by characters. -/
def unescape : List Char → List Char
  | '&' :: 'a' :: 'm' :: 'p' :: ';' :: rest => '&' :: unescape rest
  | '&' :: 'l' :: 't' :: ';' :: rest => '<' :: unescape rest
  | '&' :: 'g' :: 't' :: ';' :: rest => '>' :: unescape rest
  | '&' :: 'q' :: 'u' :: 'o' :: 't' :: ';' :: rest => '"' :: unescape rest
  | '&' :: '#' :: 'x' :: '2' :: '7' :: ';' :: rest => '\x27' :: unescape rest
  | '&' :: 'r' :: 'a' :: 'r' :: 'r' :: ';' :: rest => '→' :: unescape rest
  | c :: rest => c :: unescape rest
  | [] => []

/-- The forms that a character is written in. -/
theorem escapeChar_cases (c : Char) : (c = '&' ∧ escapeChar c = ['&', 'a', 'm', 'p', ';']) ∨
      (c = '<' ∧ escapeChar c = ['&', 'l', 't', ';']) ∨
      (c = '>' ∧ escapeChar c = ['&', 'g', 't', ';']) ∨
      (c = '"' ∧ escapeChar c = ['&', 'q', 'u', 'o', 't', ';']) ∨
      (c = '\x27' ∧ escapeChar c = ['&', '#', 'x', '2', '7', ';']) ∨
      (c ≠ '&' ∧ c ≠ '<' ∧ c ≠ '>' ∧ c ≠ '"' ∧ escapeChar c = [c]) := by
  unfold escapeChar
  by_cases hamp : c = '&'
  · exact .inl ⟨hamp, by simp [hamp]⟩
  by_cases hlt : c = '<'
  · exact .inr (.inl ⟨hlt, by simp [hlt]⟩)
  by_cases hgt : c = '>'
  · exact .inr (.inr (.inl ⟨hgt, by simp [hgt]⟩))
  by_cases hquote : c = '"'
  · exact .inr (.inr (.inr (.inl ⟨hquote, by simp [hquote]⟩)))
  by_cases hsingle : c = '\x27'
  · exact .inr (.inr (.inr (.inr (.inl ⟨hsingle, by simp [hsingle]⟩))))
  · refine .inr (.inr (.inr (.inr (.inr ⟨hamp, hlt, hgt, hquote, ?_⟩))))
    rw [if_neg hamp, if_neg hlt, if_neg hgt, if_neg hquote, if_neg hsingle]

/-- Neither angle brackets nor quotes get into a written text. -/
theorem markup_not_mem_escape (s : String) :
    '<' ∉ escape s ∧ '>' ∉ escape s ∧ '"' ∉ escape s := by
  have hchar : ∀ c : Char, '<' ∉ escapeChar c ∧ '>' ∉ escapeChar c ∧ '"' ∉ escapeChar c := by
    intro c
    rcases escapeChar_cases c with ⟨-, h⟩ | ⟨-, h⟩ | ⟨-, h⟩ | ⟨-, h⟩ | ⟨-, h⟩ |
        ⟨-, hlt, hgt, hquote, h⟩
    iterate 5
      rw [h]
      decide
    · rw [h, mem_singleton, mem_singleton, mem_singleton]
      exact ⟨Ne.symm hlt, Ne.symm hgt, Ne.symm hquote⟩
  unfold escape
  simp only [mem_flatMap, not_exists, not_and]
  exact ⟨fun c _ => (hchar c).1, fun c _ => (hchar c).2.1, fun c _ => (hchar c).2.2⟩

/-- Escaping leaves no opening bracket. -/
@[simp] theorem lt_not_mem_escape (s : String) : '<' ∉ escape s :=
  (markup_not_mem_escape s).1

/-- Escaping leaves no closing bracket. -/
@[simp] theorem gt_not_mem_escape (s : String) : '>' ∉ escape s :=
  (markup_not_mem_escape s).2.1

/-- A number is written in digits. -/
theorem isDigit_of_mem_toDigits {x : Char} {n : Nat} (h : x ∈ Nat.toDigits 10 n) :
    x.isDigit = true :=
  Nat.isDigit_of_mem_toDigits (by decide) (by decide) h

/-- Numbers hold no bracket. -/
@[simp] theorem lt_not_mem_toDigits (n : Nat) : '<' ∉ Nat.toDigits 10 n :=
  fun h => absurd (isDigit_of_mem_toDigits h) (by decide)

/-- A tag and the text up to the next one. -/
structure Element where
  tag : List Char
  text : List Char

/-- How an element is written. -/
def Element.print (e : Element) : List Char :=
  '<' :: e.tag ++ '>' :: e.text

/-- Brackets stand only around the tag. -/
structure Element.Sound (e : Element) : Prop where
  tag : '<' ∉ e.tag ∧ '>' ∉ e.tag
  text : '<' ∉ e.text

/-- The tags of a page, each with the text up to the next one. -/
def elements (cs : List Char) : List Element :=
  (Text.splitOn '<' cs).tail.map fun part =>
    ⟨part.takeWhile (· != '>'), (part.dropWhile (· != '>')).tail⟩

/-- What a page shows. -/
inductive Entry where
  /-- The heading of the page. -/
  | title (text : String)
  /-- The heading of a section. -/
  | heading (text : String)
  /-- A node, with its file. -/
  | node (filePath text : String)
  /-- An edge of the node before it. -/
  | edge (text : String)
  deriving DecidableEq

/-- What an element shows. A node has its file in an attribute, up to the first quote, and no more.
-/
def Entry.ofElement (e : Element) : Option Entry :=
  if e.tag = "h1".toList then some (.title (String.ofList (unescape e.text)))
  else if e.tag = "h2".toList then some (.heading (String.ofList (unescape e.text)))
  else if "span title=\"".toList.isPrefixOf e.tag then
    let value := e.tag.drop "span title=\"".toList.length
    if value.dropWhile (· != '"') = ['"'] then
      some (.node (String.ofList (unescape (value.takeWhile (· != '"'))))
        (String.ofList (unescape e.text)))
    else none
  else if e.tag = "li".toList ∧ e.text ≠ [] then some (.edge (String.ofList (unescape e.text)))
  else none

/-- The entries of a page, in order. -/
def entries (cs : List Char) : List Entry :=
  (elements cs).filterMap Entry.ofElement

/-- The edges that begin at a node. -/
def outgoing (s : Selection) (n : Node) : List Edge :=
  s.edges.filter (·.source == n.id)

/-- The nodes of a kind. -/
def members (s : Selection) (kind : String) : List Node :=
  s.nodes.filter (·.kind == kind)

/-- The name of a tag. -/
def Element.name (e : Element) : String :=
  String.ofList (e.tag.takeWhile (· != ' '))

end SiteAtlas.Html
