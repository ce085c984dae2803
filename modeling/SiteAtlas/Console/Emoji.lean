import SiteAtlas.Host
import SiteAtlas.Pattern.Matching
import SiteAtlas.Text.Lower

/-!
# Emoji codes

A name between colons shows the emoji; a dash and a word after it say how it is drawn.
-/

namespace SiteAtlas.Console

open Pattern

variable [Host]

/-- A code: the name is captured as 1, the drawing as 2. -/
def emojiCode : Pattern :=
  char ':' ++ capture 1 (few (.one (!Text.isBlank ·))) ++
    optional (char '-' ++ capture 2 (texts ["emoji", "text"])) ++ char ':'

/-- The selector for a way of drawing. -/
def drawingSelector (m : Match) : List Char :=
  match m.groupString 2 with
  | "text" => ['\ufe0e']
  | "emoji" => ['\ufe0f']
  | _ => []

/-- What a code shows; one with an unknown name shows itself. -/
def emojiOfCode (m : Match) : List Char :=
  match Host.emojiNamed? (Text.lower (m.group 1)) with
  | some emoji => emoji ++ drawingSelector m
  | none => m.text

/-- Replace the codes in a text. -/
def withEmoji (cs : List Char) : List Char :=
  emojiCode.replaceAll emojiOfCode cs

end SiteAtlas.Console
