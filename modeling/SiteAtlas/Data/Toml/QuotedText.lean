import SiteAtlas.Data.Toml.Line

/-!
# Strings of TOML

A string is checked between its quotes, of which one after an odd number of backslashes ends
nothing. In double quotes, code points of four digits are replaced first, then those of eight, then
other escapes.
-/

namespace SiteAtlas.Data.Toml

/-- Escapes of one letter. -/
def escapes : List (Char × Char) :=
  [('0', '\x00'), ('b', '\x08'), ('f', '\x0c'), ('n', '\n'), ('r', '\r'), ('t', '\t'), ('"', '"')]

/-- Whether an odd number of backslashes ends a text. -/
def endsEscaped (cs : List Char) : Bool :=
  (cs.reverse.takeWhile (· == '\\')).length % 2 == 1

/-- A text without its first and its last character. -/
def inner (cs : List Char) : List Char :=
  cs.tail.dropLast

/-- What is known about a string part by part. -/
structure Closing where
  /-- The string has three quotes on each side. -/
  triple : Bool
  closed : Bool := false
  row : Nat := 0

/-- Look at the next part; none if the string is closed. -/
def Closing.step (c : Closing) (part : List Char) : Option Closing :=
  if part.isEmpty then
    if c.triple then some { c with row := c.row + 1 } else some { c with closed := true }
  else if endsEscaped part then some c
  else if c.closed then none
  else if !c.triple || c.row > 1 then some { c with closed := true }
  else some { c with row := 0 }

/-- Whether nothing follows a string that is closed. -/
def closesOnce (quote : Char) (rest : List Char) : Bool :=
  let parts := Text.splitOn quote rest
  let (triple, parts) := match parts with
    | [] :: [] :: parts => (true, parts)
    | parts => (false, parts)
  (parts.foldlM Closing.step { triple }).isSome

/-- Whether every backslash begins an escape. -/
def knownEscapes (afterBackslash : Bool) : List (List Char) → Bool
  | [] => true
  | [] :: parts => knownEscapes (!afterBackslash) parts
  | (c :: _) :: parts =>
    (afterBackslash || (List.lookup c escapes).isSome || c == 'u' || c == 'U') &&
      knownEscapes false parts

/-- Replace escapes of single characters. -/
def decodeEscapes : List Char → Except Fault (List Char)
  | [] => .ok []
  | '\\' :: c :: rest =>
    match List.lookup c escapes with
    | some char => (decodeEscapes rest).map (char :: ·)
    | none =>
      if c = '\\' then (decodeEscapes rest).map ('\\' :: ·)
      else if c = 'u' || c = 'U' then (decodeEscapes rest).map ('\\' :: c :: ·)
      else .error .malformed
  | c :: rest => (decodeEscapes rest).map (c :: ·)

/-- The value of a hexadecimal digit. -/
def hexValue? (c : Char) : Option Nat :=
  if c.isDigit then some (c.toNat - '0'.toNat)
  else if 'a' ≤ c && c ≤ 'f' then some (c.toNat - 'a'.toNat + 10)
  else if 'A' ≤ c && c ≤ 'F' then some (c.toNat - 'A'.toNat + 10)
  else none

/-- Numbers from here on cannot be asked for their character. -/
def codeLimit : Nat := 0x80000000

/-- The character of hexadecimal digits, surrogates refused. -/
def charOfHex (digits : List Char) : Except Fault Char := do
  let some values := digits.mapM hexValue? | .error .malformed
  let first :: more := values | .error .noChar
  if first = 13 then
    let second :: _ := more | .error .noChar
    if second ≥ 8 then .error .malformed
  let n := values.foldl (16 * · + ·) 0
  if n ≥ codeLimit then .error .codeTooLarge
  else if n < 0x110000 && !(0xd800 ≤ n && n < 0xe000) then return Char.ofNat n
  else .error .malformed

/-- Join the parts between the beginnings of escapes, replacing the digits of each by its character
unless an odd number of backslashes stands before. -/
def joinCodePoints (start : List Char) (width : Nat) (skip : Bool) (text : List Char) :
    List (List Char) → Except Fault (List Char)
  | [] => .ok text
  | part :: parts =>
    if skip then joinCodePoints start width (endsEscaped part) (text ++ start ++ part) parts
    else do
      let digits := part.take width
      let c ← charOfHex digits
      joinCodePoints start width false (text ++ c :: part.drop digits.length) parts

/-- Replace the escapes of a letter for so many digits. -/
def decodeCodePoints (letter : Char) (width : Nat) (cs : List Char) : Except Fault (List Char) :=
  let start := ['\\', letter]
  match Text.splitOnText (String.ofList start) cs with
  | [] => .ok cs
  | first :: parts => joinCodePoints start width (endsEscaped first) first parts

/-- Replace all escapes of a string in double quotes. -/
def decodeText (cs : List Char) : Except Fault (List Char) := do
  if !knownEscapes false ((Text.splitOn '\\' cs).drop 1) then .error .malformed
  decodeEscapes (← decodeCodePoints 'U' 8 (← decodeCodePoints 'u' 4 cs))

/-- A string without its quotes; a second one may belong to a row of three. -/
def unquote (quote : Char) (cs : List Char) : List Char :=
  match cs with
  | [_, b] => if b = quote then [] else inner cs
  | _ :: b :: c :: _ =>
    if b = quote && c = quote then inner (cs.drop 2).dropLast.dropLast else inner cs
  | cs => inner cs

/-- Read a string. -/
def readString (cs : List Char) : Except Fault (List Char) :=
  match cs with
  | [] => .error .malformed
  | quote :: rest =>
    if !closesOnce quote rest then .error .malformed
    else if quote = '"' then (decodeText cs).map (unquote quote)
    else .ok (unquote quote cs)

end SiteAtlas.Data.Toml
