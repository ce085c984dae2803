import SiteAtlas.Text.Printable
import SiteAtlas.Text.Surrogate

/-!
# Quoted texts

A text in quotes on one line: single ones, or double ones where that saves escapes; what does not
print is shown by its code point.
-/

namespace SiteAtlas.Text

/-- The last `width` hexadecimal digits of a number, in lower case. -/
def hexDigits : Nat → Nat → List Char
  | 0, _ => []
  | width + 1, n => hexDigits width (n / 16) ++ [Nat.digitChar (n % 16)]

/-- A code point by two, four or eight hexadecimal digits, whichever suffices. -/
def escapedCodePoint (n : Nat) : List Char :=
  if n < 0x100 then '\\' :: 'x' :: hexDigits 2 n
  else if n < 0x10000 then '\\' :: 'u' :: hexDigits 4 n
  else '\\' :: 'U' :: hexDigits 8 n

/-- A character within quotes of a kind. -/
def quotedChar [Host] (quote c : Char) : List Char :=
  if c == quote || c == '\\' then ['\\', c]
  else if c == '\n' then ['\\', 'n']
  else if c == '\r' then ['\\', 'r']
  else if c == '\t' then ['\\', 't']
  else if isPrintable c && !isSurrogate c then [c]
  else escapedCodePoint (codeOf c)

/-- The quotes for a text. -/
def quoteFor (cs : List Char) : Char :=
  if cs.contains '\x27' && !cs.contains '"' then '"' else '\x27'

/-- A text in quotes. -/
def quoted [Host] (cs : List Char) : List Char :=
  let quote := quoteFor cs
  quote :: cs.flatMap (quotedChar quote) ++ [quote]

end SiteAtlas.Text
