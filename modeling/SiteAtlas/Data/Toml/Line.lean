import SiteAtlas.Data.Toml.Fault
import SiteAtlas.Text.Blank
import SiteAtlas.Text.Word

/-!
# Lines of TOML

A first pass takes comments away, joins lines within brackets, and refuses keys without a value and
open strings. It looks at the characters before a quote; before the first one it sees the end of
the text.
-/

namespace SiteAtlas.Data.Toml

/-- Whether a character opens a string. -/
def isQuote (c : Char) : Bool :=
  c == '"' || c == '\x27'

/-- Where the pass is with respect to a key. -/
inductive KeyPart where
  /-- Not in a key. -/
  | outside
  /-- Within a name. -/
  | within
  /-- After a name. -/
  | after
  deriving DecidableEq

/-- The state of the pass. -/
structure Pass where
  /-- The text, with what was changed so far. -/
  text : Array Char
  /-- How many brackets of arrays are open. -/
  depth : Int := 0
  /-- The quote of the string that is open. -/
  quote : Option Char := none
  /-- A string of several lines is open. -/
  multiline : Bool := false
  /-- Within the brackets of a header. -/
  header : Bool := false
  /-- Within the double brackets of a header. -/
  listHeader : Bool := false
  /-- Nothing but blanks has been seen in the line. -/
  lineStart : Bool := true
  /-- The key has a dot. -/
  dotted : Bool := false
  key : KeyPart := .outside

namespace Pass

/-- The place of a number; negative ones count from the end. -/
def place (p : Pass) (j : Int) : Nat :=
  (if j < 0 then j + p.text.size else j).toNat

/-- Whether a number stands for a place in the text. -/
def inside (p : Pass) (j : Int) : Bool :=
  -(p.text.size : Int) ≤ j && j < p.text.size

/-- The character at a place. -/
def at? (p : Pass) (j : Int) : Option Char :=
  if p.inside j then p.text[p.place j]? else none

/-- The character at a place, which has to exist. -/
def get (p : Pass) (j : Int) : Except Fault Char :=
  match p.at? j with
  | some c => .ok c
  | none => .error .noItem

/-- Change the character at a place. -/
def put (p : Pass) (j : Int) (c : Char) : Pass :=
  { p with text := p.text.setIfInBounds (p.place j) c }

/-- How many equal characters end before a place, at most `limit`. -/
def countBefore (p : Pass) (c : Char) : (limit : Nat) → Int → Nat
  | 0, _ => 0
  | limit + 1, j => if p.at? (j - 1) = some c then countBefore p c limit (j - 1) + 1 else 0

/-- Whether a backslash that counts stands before a place. -/
def escapedInKey (p : Pass) (i : Nat) : Bool :=
  p.countBefore '\\' i i % 2 == 1

/-- A name goes on after a blank or a dot if one can begin there. -/
def continueKey (p : Pass) (i : Nat) : Except Fault Pass := do
  let next ← p.get (i + 1)
  if !Text.isBlank next && next != '.' then return { p with key := .within } else return p

/-- Go on after a key. -/
def endKey (p : Pass) (c : Char) : Except Fault (Pass × Bool) :=
  if c = '=' then .ok ({ p with key := .outside, dotted := false }, false) else .error .malformed

/-- Look at a character of a key, and whether that suffices. -/
def lookAtKey (p : Pass) (i : Nat) (c : Char) : Except Fault (Pass × Bool) :=
  if c = '\n' then .error .malformed
  else match p.quote, p.key with
    | some quote, _ =>
      if c = quote && !p.escapedInKey i then .ok ({ p with key := .after, quote := none }, true)
      else .ok (p, true)
    | none, .within =>
      if Text.isBlank c then .ok ({ p with key := .after }, true)
      else if c = '.' then .ok ({ p with dotted := true }, true)
      else if Text.isWord c || c = '-' then .ok (p, true)
      else if p.dotted && p.at? ((i : Int) - 1) = some '.' && isQuote c then
        .ok ({ p with quote := some c }, true)
      else p.endKey c
    | none, _ =>
      if Text.isBlank c then
        if p.dotted then (p.continueKey i).map (·, true) else .ok (p, true)
      else if c = '.' then (({ p with dotted := true } : Pass).continueKey i).map (·, true)
      else p.endKey c

/-- Open or close a string at a quote; three are for several lines. -/
def toggleString (p : Pass) (c : Char) (third : Bool) : Pass :=
  let opened := if third then !p.multiline else p.quote.isNone
  { p with
    multiline := if third then !p.multiline else p.multiline
    quote := if opened then some c else none }

/-- Look at a quote. -/
def lookAtQuote (p : Pass) (i : Nat) (c : Char) : Pass :=
  if c = '\x27' && p.quote != some '"' then
    p.toggleString c (p.countBefore c 2 i == 2)
  else if c = '"' && p.quote != some '\x27' then
    let row := p.countBefore c 2 i
    let backslashes := if row = 1 then 0
      else p.countBefore '\\' (2 * p.text.size) ((i : Int) - row)
    if backslashes % 2 = 1 then p else p.toggleString c (row == 2)
  else p

/-- Replace the rest of a line by blanks. -/
def eraseLine (text : Array Char) : Nat → Nat → Array Char
  | 0, _ => text
  | fuel + 1, j =>
    match text[j]? with
    | none => text
    | some c => if c = '\n' then text else eraseLine (text.setIfInBounds j ' ') fuel (j + 1)

/-- Look at a bracket. -/
def lookAtBracket (p : Pass) (i : Nat) (c : Char) : Pass :=
  if p.quote.isSome then p
  else if c = '[' then
    if p.header || p.listHeader then p
    else if p.lineStart then
      if p.text[i + 1]? = some '[' then { p with listHeader := true } else { p with header := true }
    else { p with depth := p.depth + 1 }
  else if c = ']' then
    if p.header then { p with header := false }
    else if p.listHeader then
      if p.at? ((i : Int) - 1) = some ']' then { p with listHeader := false } else p
    else { p with depth := p.depth - 1 }
  else p

/-- Look at a line break, which may continue a row of quotes. -/
def lookAtBreak (p : Pass) (i : Nat) : Except Fault Pass :=
  if p.multiline then do
    let last ← p.get ((i : Int) - 1)
    if !isQuote last then return p
    if (← p.get ((i : Int) - 2)) != last then return p
    let p := p.put i last
    if (← p.get ((i : Int) - 3)) = last then return p.put ((i : Int) - 3) ' ' else return p
  else if p.quote.isSome then .error .malformed
  else if p.depth ≠ 0 then .ok (p.put i ' ')
  else .ok { p with lineStart := true }

/-- Look at the start of a line. -/
def lookAtStart (p : Pass) (i : Nat) : Except Fault Pass :=
  match p.text[i]? with
  | none => .ok p
  | some c =>
    if !p.lineStart || c = ' ' || c = '\t' then .ok p
    else if p.header || p.listHeader then .ok { p with lineStart := false }
    else if c = '=' then .error .malformed
    else .ok { p with lineStart := false, key := .within }

/-- Whether a comment begins with a character. -/
def startsComment (p : Pass) (c : Char) : Bool :=
  c = '#' && p.quote.isNone && !p.header && !p.listHeader

/-- Whether no line break follows. -/
def isLastLine (p : Pass) (i : Nat) : Bool :=
  !(p.text.toList.drop i).contains '\n'

/-- Look at a character, and whether the pass ends there. -/
def look (p : Pass) (i : Nat) (c : Char) : Except Fault (Pass × Bool) := do
  let (p, settled) ← if p.key = .outside then .ok (p, false) else p.lookAtKey i c
  if settled then return (p, false)
  let p := p.lookAtQuote i c
  let comment := p.startsComment c
  let last := comment && p.isLastLine i
  let p := if comment then { p with text := eraseLine p.text p.text.size i } else p
  if last then return (p, true)
  let p := p.lookAtBracket i c
  let p ← if c = '\n' then p.lookAtBreak i else p.lookAtStart i
  return (p, false)

/-- Look at all characters from a place on. -/
def run : Nat → Nat → Pass → Except Fault Pass
  | 0, _, p => .ok p
  | fuel + 1, i, p =>
    match p.text[i]? with
    | none => .ok p
    | some c => do
      let (p, last) ← p.look i c
      if last then return p else run fuel (i + 1) p

end Pass

/-- The lines of a text. -/
def lines (cs : List Char) : Except Fault (List (List Char)) := do
  let p ← Pass.run cs.length 0 { text := cs.toArray }
  if p.key ≠ .outside || p.quote.isSome then .error .malformed
  return Text.splitOn '\n' p.text.toList

end SiteAtlas.Data.Toml
