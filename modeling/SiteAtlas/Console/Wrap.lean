import SiteAtlas.Text.Basic
import SiteAtlas.Text.Blank
import SiteAtlas.Text.Grapheme

/-!
# Wrapping

A line that is too wide is broken between words; too wide a word is folded, or cut off with an
ellipsis. Blanks belong to the word before them and may reach over the end of a line.
-/

namespace SiteAtlas.Console

/-- What becomes of a word that is too wide for any line. -/
inductive Overflow where
  /-- It goes on in the next line. -/
  | fold
  /-- It is cut off, and an ellipsis stands for the rest. -/
  | ellipsis
  deriving DecidableEq

/-- The first word with the blanks around it, and the rest. -/
def nextWord (cs : List Char) : List Char × List Char :=
  let blanks := cs.takeWhile Text.isBlank
  let rest := cs.dropWhile Text.isBlank
  let word := rest.takeWhile (!Text.isBlank ·)
  let rest := rest.dropWhile (!Text.isBlank ·)
  (blanks ++ word ++ rest.takeWhile Text.isBlank, rest.dropWhile Text.isBlank)

/-- At most so many words. -/
def wordsUpTo : Nat → List Char → List (List Char)
  | 0, _ => []
  | limit + 1, cs =>
    if cs.isEmpty then []
    else
      let (word, rest) := nextWord cs
      word :: wordsUpTo limit rest

/-- The words of a text, each with the blanks after it. -/
def words (cs : List Char) : List (List Char) :=
  wordsUpTo cs.length cs

/-- Drop blanks at the end. -/
def trimEnd (cs : List Char) : List Char :=
  Text.trimEndWhile Text.isBlank cs

/-- Arrange words in lines, given a line begun and its cells. -/
def arrange (width : Nat) (overflow : Overflow) (line : List Char) (cells : Nat) :
    List (List Char) → List (List Char)
  | [] => [line]
  | word :: rest =>
    let wordCells := Text.cellCount (trimEnd word)
    let begun := if line.isEmpty then [] else [line]
    if cells + wordCells ≤ width then
      arrange width overflow (line ++ word) (cells + Text.cellCount word) rest
    else if width < wordCells && overflow = .fold then
      let parts := Text.chopCells width word
      let last := parts.getLast?.getD []
      begun ++ parts.dropLast ++ arrange width overflow last (Text.cellCount last) rest
    else begun ++ arrange width overflow word (Text.cellCount word) rest

/-- Drop final blanks while a line has more characters than cells. -/
def dropExcess (width : Nat) (line : List Char) : List Char :=
  let blanks := line.length - (trimEnd line).length
  line.take (line.length - min blanks (line.length - width))

/-- Cut off what does not fit. -/
def truncate (width : Nat) (overflow : Overflow) (line : List Char) : List Char :=
  if Text.cellCount line ≤ width then line
  else
    match overflow with
    | .fold => Text.fitCells width line
    | .ellipsis => Text.fitCells (width - 1) line ++ ['…']

/-- Cells between tab stops. -/
def tabWidth : Nat := 8

/-- Fill a line up at each tab, given the cells before it. -/
def fillTabs (cells : Nat) : List (List Char) → List Char
  | [] => []
  | [part] => part
  | part :: rest =>
    let filled := part ++ [' ']
    let reached := cells + Text.cellCount filled
    let more := (tabWidth - reached % tabWidth) % tabWidth
    filled ++ List.replicate more ' ' ++ fillTabs (reached + more) rest

/-- The lines of a wrapped text. -/
def wrap (width : Nat) (overflow : Overflow) (cs : List Char) : List (List Char) :=
  (Text.splitOn '\n' cs).flatMap fun line =>
    (arrange width overflow [] 0 (words (fillTabs 0 (Text.splitOn '\t' line)))).map
      (dropExcess width)

end SiteAtlas.Console
