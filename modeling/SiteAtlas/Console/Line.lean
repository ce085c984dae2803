import SiteAtlas.Console.Markup
import SiteAtlas.Console.Wrap

/-!
# Console lines

A marked-up text without control characters, in lines that fit the console or a field.
-/

namespace SiteAtlas.Console

variable [Host]

/-- The width of the console. -/
def consoleWidth : Nat := 1000

/-- Whether a character is never shown. -/
def isDropped (c : Char) : Bool :=
  c.toNat == 7 || c.toNat == 8 || c.toNat == 11 || c.toNat == 12 || c.toNat == 13

/-- What a marked-up text shows. -/
def shownText (markup : List Char) : Except Markup.MarkupError (List Char) :=
  (Markup.shown markup).map fun cs => cs.filter (!isDropped ·)

/-- The lines of a marked-up text on the console. -/
def lines (markup : List Char) : Except Markup.MarkupError (List (List Char)) :=
  (shownText markup).map fun cs =>
    (wrap consoleWidth .fold cs).map (truncate consoleWidth .fold)

/-- Where a text stands in a field. -/
inductive Alignment where
  | left
  | right
  | center
  deriving DecidableEq

/-- So many blanks. -/
def blanksOf (n : Nat) : List Char :=
  List.replicate n ' '

/-- A line in a field; an odd blank goes to the right. -/
def align (alignment : Alignment) (width : Nat) (line : List Char) : List Char :=
  let kept := if alignment = .left then line else trimEnd line
  let line := truncate width .ellipsis kept
  let room := width - Text.cellCount line
  match alignment with
  | .left => line ++ blanksOf room
  | .right => blanksOf room ++ line
  | .center => blanksOf (room / 2) ++ line ++ blanksOf (room - room / 2)

/-- The lines of a text in a field. -/
def fieldLines (alignment : Alignment) (width : Nat) (cs : List Char) : List (List Char) :=
  (wrap width .ellipsis cs).map fun line => Text.fitCells width (align alignment width line)

end SiteAtlas.Console
