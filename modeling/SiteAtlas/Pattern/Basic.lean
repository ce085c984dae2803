import SiteAtlas.Pattern.Anchor
import SiteAtlas.Text.Blank
import SiteAtlas.Text.Word

/-!
# Text patterns

A pattern describes how a text may be read from a position on. The first of two choices is
preferred, and a repetition prefers more turns or fewer as its eagerness says. What was read can be
captured and asked for again. `SiteAtlas.Pattern.Matching` gives patterns their meaning.
-/

namespace SiteAtlas

/-- Whether a repetition prefers further turns or an early end. -/
inductive Eagerness where
  | greedy
  | lazy

/-- A description of how a text may be read from a position on. -/
inductive Pattern where
  /-- Read nothing. -/
  | empty
  /-- Read one character of a class. -/
  | one (accepts : Char → Bool)
  /-- Read `first`, then `second`. -/
  | seq (first second : Pattern)
  /-- Read `first`, or failing that `second`. -/
  | either (first second : Pattern)
  /-- Read `body` `least` times and at most `extra` times more. -/
  | loop (eagerness : Eagerness) (least : Nat) (extra : Option Nat) (body : Pattern)
  /-- Read `body` and remember what was read under `index`. -/
  | capture (index : Nat) (body : Pattern)
  /-- Read again what is remembered under `index`. -/
  | again (index : Nat)
  /-- Read nothing, where the anchor holds. -/
  | anchor (place : Anchor)
  /-- Read nothing, where `body` cannot be read. -/
  | notAhead (body : Pattern)

namespace Pattern

instance : Inhabited Pattern := ⟨.empty⟩

instance : Append Pattern := ⟨.seq⟩

instance : OrElse Pattern := ⟨fun p q => .either p (q ())⟩

/-- Read the character `c`. -/
def char (c : Char) : Pattern :=
  .one (· == c)

/-- Read given characters. -/
def chars : List Char → Pattern
  | [] => .empty
  | c :: rest => .seq (char c) (chars rest)

/-- Read a given text. -/
def text (s : String) : Pattern :=
  chars s.toList

/-- Read one of the listed characters. -/
def oneOf (s : String) : Pattern :=
  .one fun c => s.toList.contains c

/-- Read one character that is not listed. -/
def noneOf (s : String) : Pattern :=
  .one fun c => !s.toList.contains c

/-- Read any character but a line break. -/
def dot : Pattern :=
  .one (· != '\n')

/-- Read any character. -/
def any : Pattern :=
  .one fun _ => true

/-- Read a blank. -/
def blank : Pattern :=
  .one Text.isBlank

/-- Read a word character. -/
def wordChar : Pattern :=
  .one Text.isWord

/-- Read one capital letter of the ASCII block. -/
def capital : Pattern :=
  .one Char.isUpper

/-- Read `p` any number of times, preferably often. -/
def many (p : Pattern) : Pattern :=
  .loop .greedy 0 none p

/-- Read `p` at least once, preferably often. -/
def many1 (p : Pattern) : Pattern :=
  .loop .greedy 1 none p

/-- Read `p` any number of times, preferably seldom. -/
def few (p : Pattern) : Pattern :=
  .loop .lazy 0 none p

/-- Read `p` at least once, preferably seldom. -/
def few1 (p : Pattern) : Pattern :=
  .loop .lazy 1 none p

/-- Read `p` once, or failing that nothing. -/
def optional (p : Pattern) : Pattern :=
  .loop .greedy 0 (some 1) p

/-- Read any blanks. -/
def blanks : Pattern :=
  many blank

/-- Read some blanks. -/
def blanks1 : Pattern :=
  many1 blank

/-- Read a word. -/
def word : Pattern :=
  many1 wordChar

/-- Read the first of several patterns that leads to an answer. -/
def choice : List Pattern → Pattern
  | [] => .one fun _ => false
  | [p] => p
  | p :: rest => .either p (choice rest)

/-- Read one of given texts. -/
def texts (options : List String) : Pattern :=
  choice (options.map text)

/-- Stand at the beginning or the end of a word. -/
def wordEdge : Pattern :=
  .anchor (.wordEdge Text.isWord)

/-- The end of the text, or before a final line break. -/
def lastLineEnd : Pattern :=
  .anchor .lastLineEnd

/-- The start of the text. -/
def textStart : Pattern :=
  .anchor .textStart

end Pattern

end SiteAtlas
