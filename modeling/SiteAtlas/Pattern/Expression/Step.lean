import SiteAtlas.Pattern.Anchor
import SiteAtlas.Pattern.Expression.Node

/-!
# Steps of a search

Rows are assembled into steps. Groups that do not capture leave no trace, a repetition of one
character is one step, and a choice knows how its alternatives begin.
-/

namespace SiteAtlas.Expression

/-- What a search does at a spot. -/
inductive Step where
  /-- Nothing. -/
  | done
  /-- Fail. -/
  | never
  /-- Read one character. -/
  | one (accepts : Char → Bool)
  | seq (first second : Step)
  /-- Try `first` where its lead admits it, then `others`. -/
  | fork (lead : Lead) (first others : Step)
  /-- Read characters that pass a test, up to `next`. -/
  | span (manner : Manner) (least : Nat) (most : Option Nat) (test : CharTest) (next : Option Nat)
  | loop (manner : Manner) (least : Nat) (most : Option Nat) (body : Step)
  /-- Remember the spot under an index. -/
  | mark (index : Nat)
  /-- Read again, up to `same`, what a group has captured. -/
  | echo (group : Nat) (same : Char → Char → Bool)
  | place (anchor : Anchor)
  /-- Look for `body` from `back` characters earlier on. -/
  | look (back : Nat) (expected : Bool) (body : Step)
  | atomic (body : Step)
  | ifCaptured (group : Nat) (yes no : Step)

/-- The code point of a literal lead. -/
def Lead.code? : Lead → Option Nat
  | .literal code => some code
  | _ => none

/-- The index of the spot where a group begins. -/
def openingMark (group : Nat) : Nat := 2 * (group - 1)

/-- The index of the spot where a group ends. -/
def closingMark (group : Nat) : Nat := 2 * (group - 1) + 1

/-- The anchor of a place. -/
def Place.anchor (flags : Flags) : Place → Anchor
  | .lineStart => if flags.multiline then .lineStart else .textStart
  | .lineEnd => if flags.multiline then .lineEnd else .lastLineEnd
  | .textStart => .textStart
  | .textEnd => .textEnd
  | .wordEdge => .wordEdge flags.isWord
  | .wordInside => .wordInside flags.isWord

mutual

/-- The test of a node that reads one character. -/
def Node.test? (flags : Flags) : Node → Option CharTest
  | .literal code => some (.literal flags true code)
  | .notLiteral code => some (.literal flags false code)
  | .any => some (.any flags)
  | .set complement members => some (.set flags complement members)
  | .group none change body => rowTest? (change.elim flags flags.changed) body
  | _ => none

/-- The test of a row that reads one character. -/
def rowTest? (flags : Flags) : List Node → Option CharTest
  | [n] => n.test? flags
  | _ => none

end

/-- Steps with what they tell in advance about the text. -/
abbrev Assembled := Step × Lead

mutual

/-- The steps of a node that is followed as `next` says. -/
def Node.assemble (flags : Flags) (next : Lead) : Node → Assembled
  | .literal code =>
    let test := CharTest.literal flags true code
    (.one test.accepts, test.lead)
  | .notLiteral code => (.one (CharTest.literal flags false code).accepts, .unknown)
  | .any => (.one (CharTest.any flags).accepts, .unknown)
  | .set complement members =>
    let test := CharTest.set flags complement members
    (.one test.accepts, test.lead)
  | .place which => (.place (which.anchor flags), .unknown)
  | .echo group _ => (.echo group flags.same, .unknown)
  | .loop manner least most body =>
    match rowTest? flags body with
    | some test => (.span manner least most test next.code?, .unknown)
    | none => (.loop manner least most (assembleRow flags .unknown body).1, .unknown)
  | .group none change body => assembleRow (change.elim flags flags.changed) next body
  | .group (some n) change body =>
    let inner := (assembleRow (change.elim flags flags.changed) .unknown body).1
    (.seq (.mark (openingMark n)) (.seq inner (.mark (closingMark n))), .unknown)
  | .atomic body => (.atomic (assembleRow flags .unknown body).1, .unknown)
  | .look behind expected body =>
    let back := if behind then (widthOf body).1 else 0
    (.look back expected (assembleRow flags .unknown body).1, .unknown)
  | .condition group yes no =>
    let yesNext := if no.isEmpty then next else .unknown
    (.ifCaptured group (assembleRow flags yesNext yes).1 (assembleRow flags next no).1, .unknown)
  | .choice alternatives => (assembleChoice flags alternatives, .unknown)

/-- The steps of a row that is followed as `next` says. -/
def assembleRow (flags : Flags) (next : Lead) : List Node → Assembled
  | [] => (.done, next)
  | n :: rest =>
    let after := assembleRow flags next rest
    let first := n.assemble flags after.2
    (.seq first.1 after.1, first.2)

/-- The steps of alternatives, to be tried in order. -/
def assembleChoice (flags : Flags) : List (List Node) → Step
  | [] => .never
  | row :: rest =>
    let first := assembleRow flags .unknown row
    .fork first.2 first.1 (assembleChoice flags rest)

end

end SiteAtlas.Expression
