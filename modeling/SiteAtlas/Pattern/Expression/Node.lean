import SiteAtlas.Pattern.Expression.CharSet
import SiteAtlas.Text.Basic

/-!
# The structure of written patterns

A written pattern is a row of nodes. From alternatives, what all begin with is taken out, and those
of one character each become a set.
-/

namespace SiteAtlas.Expression

/-- How a repetition chooses the number of its turns. -/
inductive Manner where
  /-- As many as possible, fewer if the rest asks for it. -/
  | greedy
  /-- As few as possible, more if the rest asks for it. -/
  | lazy
  /-- As many as possible, whatever the rest asks for. -/
  | possessive
  deriving DecidableEq

/-- Conditions on a position, as they are written. -/
inductive Place where
  /-- The beginning of the text, or of a line if flagged. -/
  | lineStart
  /-- The end of the text or, with the flag for lines, of a line. -/
  | lineEnd
  | textStart
  | textEnd
  | wordEdge
  | wordInside
  deriving DecidableEq

/-- A part of a written pattern. -/
inductive Node where
  /-- One code point. -/
  | literal (code : Nat)
  /-- One character with another code point. -/
  | notLiteral (code : Nat)
  /-- The dot. -/
  | any
  /-- One character of a set or of its complement. -/
  | set (complement : Bool) (members : List SetMember)
  | place (which : Place)
  /-- Read again what a group has captured. -/
  | echo (group : Nat) (width : Nat × Nat)
  | loop (manner : Manner) (least : Nat) (most : Option Nat) (body : List Node)
  /-- A group that may capture and change flags. -/
  | group (number : Option Nat) (change : Option FlagChange) (body : List Node)
  /-- Read in the preferred way only. -/
  | atomic (body : List Node)
  /-- Look ahead or behind without reading. -/
  | look (behind expected : Bool) (body : List Node)
  /-- Depend on whether a group has captured something. -/
  | condition (group : Nat) (yes no : List Node)
  | choice (alternatives : List (List Node))

namespace Node

/-- Whether two nodes without parts are written alike. -/
def alike : Node → Node → Bool
  | .literal a, .literal b => a == b
  | .notLiteral a, .notLiteral b => a == b
  | .any, .any => true
  | .set c ms, .set d ns => c == d && ms == ns
  | .place a, .place b => a == b
  | .echo g _, .echo h _ => g == h
  | _, _ => false

/-- What a plain group holds; else the node itself. -/
def unwrapped : Node → List Node
  | .group none none body => body
  | n => [n]

end Node

/-- What all rows begin with, and what remains of each. -/
def factored : List Node → List (List Node) → List Node × List (List Node)
  | [], others => ([], [] :: others)
  | n :: row, others =>
    if others.all fun other => other.head?.any n.alike then
      let (common, rest) := factored row (others.map List.tail)
      (n :: common, rest)
    else ([], (n :: row) :: others)

/-- The members of a row that is a set. -/
def rowMembers? : List Node → Option (List SetMember)
  | [.literal code] => some [.code code]
  | [.set false members] => some members
  | _ => none

/-- The row of alternatives. -/
def joinAlternatives : List (List Node) → List Node
  | [] => []
  | [row] => row
  | row :: others =>
    let (common, rest) := factored row others
    match rest.mapM rowMembers? with
    | some members => common ++ [.set false (Text.unique members.flatten)]
    | none => common ++ [.choice rest]

/-- A set; with one code point, that or any other. -/
def setNode (complement : Bool) (members : List SetMember) : Node :=
  match Text.unique members, complement with
  | [.code n], false => .literal n
  | [.code n], true => .notLiteral n
  | members, _ => .set complement members

/-- Repetitions are counted below this bound. -/
def countLimit : Nat := 4294967295

/-- A width within the limits. -/
def cutWidth (width : Nat × Nat) : Nat × Nat :=
  (min width.1 (countLimit - 1), min width.2 countLimit)

/-- The width of a choice. -/
def eitherWidth (a b : Nat × Nat) : Nat × Nat :=
  (min a.1 b.1, max a.2 b.2)

mutual

/-- The least and the largest width of a node. -/
def Node.width : Node → Nat × Nat
  | .literal _ => (1, 1)
  | .notLiteral _ => (1, 1)
  | .any => (1, 1)
  | .set _ _ => (1, 1)
  | .place _ => (0, 0)
  | .echo _ width => width
  | .loop _ least most body =>
    let width := cutWidth (rowWidth body)
    (least * width.1, most.getD countLimit * width.2)
  | .group _ _ body => cutWidth (rowWidth body)
  | .atomic body => cutWidth (rowWidth body)
  | .look _ _ _ => (0, 0)
  | .condition _ yes no => eitherWidth (cutWidth (rowWidth yes)) (cutWidth (rowWidth no))
  | .choice alternatives => choiceWidth alternatives

/-- The least and the largest width of a row. -/
def rowWidth : List Node → Nat × Nat
  | [] => (0, 0)
  | n :: rest =>
    let a := n.width
    let b := rowWidth rest
    (a.1 + b.1, a.2 + b.2)

/-- The least and the largest width of several rows. -/
def choiceWidth : List (List Node) → Nat × Nat
  | [] => (countLimit - 1, 0)
  | row :: rest => eitherWidth (cutWidth (rowWidth row)) (choiceWidth rest)

end

/-- The width of a row. -/
def widthOf (row : List Node) : Nat × Nat :=
  cutWidth (rowWidth row)

mutual

/-- Widths of looks behind. -/
def Node.behindWidths : Node → List (Nat × Nat)
  | .loop _ _ _ body => rowBehindWidths body
  | .group _ _ body => rowBehindWidths body
  | .atomic body => rowBehindWidths body
  | .look behind _ body => (if behind then [widthOf body] else []) ++ rowBehindWidths body
  | .condition _ yes no => rowBehindWidths yes ++ rowBehindWidths no
  | .choice alternatives => choiceBehindWidths alternatives
  | _ => []

/-- Widths of looks behind in a row. -/
def rowBehindWidths : List Node → List (Nat × Nat)
  | [] => []
  | n :: rest => n.behindWidths ++ rowBehindWidths rest

/-- The widths of all looks behind within several rows. -/
def choiceBehindWidths : List (List Node) → List (Nat × Nat)
  | [] => []
  | row :: rest => rowBehindWidths row ++ choiceBehindWidths rest

end

end SiteAtlas.Expression
