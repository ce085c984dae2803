import SiteAtlas.Data.Value
import SiteAtlas.Number.IntegerText

/-!
# Reading JSON

Strict JSON with `NaN`, `Infinity` and `-Infinity`. A repeated key keeps its first place and takes
its last value. Containers can be nested as far as there is room; going beyond it is not the same
as being malformed.
-/

namespace SiteAtlas.Data.Json

open SiteAtlas.Number

/-- Values that hold values. -/
inductive Container where
  | list
  | table
  deriving DecidableEq

/-- How a container is named. -/
def Container.label : Container → String
  | .list => "array"
  | .table => "object"

/-- Why a text cannot be read. -/
inductive Fault where
  | malformed
  /-- A container is nested too deeply. -/
  | tooDeep (container : Container)
  deriving DecidableEq

/-- What is said about a fault. -/
def Fault.message : Fault → String
  | .malformed => "the text is malformed"
  | .tooDeep container =>
    "maximum recursion depth exceeded while decoding a JSON " ++ container.label ++
      " from a unicode string"

/-- Blanks between tokens. -/
def isSpace (c : Char) : Bool :=
  c == ' ' || c == '\t' || c == '\n' || c == '\r'

/-- The rest of a text after its leading blanks. -/
def skipSpace (cs : List Char) : List Char :=
  cs.dropWhile isSpace

/-- The value of a hexadecimal digit. -/
def hexValue? (c : Char) : Option Nat :=
  if c.isDigit then some (c.toNat - 48)
  else if 'a' ≤ c && c ≤ 'f' then some (c.toNat - 87)
  else if 'A' ≤ c && c ≤ 'F' then some (c.toNat - 55)
  else none

/-- The number of four hexadecimal digits. -/
def hex4? (a b c d : Char) : Option Nat := do
  return ((← hexValue? a) * 16 + (← hexValue? b)) * 256 + ((← hexValue? c) * 16 + (← hexValue? d))

/-- First halves of characters beyond the basic plane. -/
def isHighHalf (n : Nat) : Bool := 0xd800 ≤ n && n ≤ 0xdbff

/-- Second halves of characters beyond the basic plane. -/
def isLowHalf (n : Nat) : Bool := 0xdc00 ≤ n && n ≤ 0xdfff

/-- The character of two halves. -/
def joinHalves (high low : Nat) : Char :=
  Char.ofNat (0x10000 + (high - 0xd800) * 0x400 + (low - 0xdc00))

/-- The character of an escape. -/
def escapedChar? (c : Char) : Option Char :=
  List.lookup c
    [('"', '"'), ('\\', '\\'), ('/', '/'), ('b', '\x08'), ('f', '\x0c'), ('n', '\n'), ('r', '\r'),
     ('t', '\t')]

section

variable [Host]

/-- Read a text with its closing quote, joining two halves in a row. -/
def readString : List Char → Option (List Char × List Char)
  | [] => none
  | '"' :: rest => some ([], rest)
  | '\\' :: 'u' :: a :: b :: c :: d :: '\\' :: 'u' :: e :: f :: g :: h :: rest =>
    match hex4? a b c d, hex4? e f g h with
    | some high, some low =>
      if isHighHalf high && isLowHalf low then
        (readString rest).map fun (cs, after) => (joinHalves high low :: cs, after)
      else (readString ('\\' :: 'u' :: e :: f :: g :: h :: rest)).map fun (cs, after) =>
        (Text.charOf high :: cs, after)
    | some n, none =>
      (readString ('\\' :: 'u' :: e :: f :: g :: h :: rest)).map fun (cs, after) =>
        (Text.charOf n :: cs, after)
    | none, _ => none
  | '\\' :: 'u' :: a :: b :: c :: d :: rest =>
    match hex4? a b c d with
    | some n => (readString rest).map fun (cs, after) => (Text.charOf n :: cs, after)
    | none => none
  | '\\' :: c :: rest =>
    match escapedChar? c with
    | some x => (readString rest).map fun (cs, after) => (x :: cs, after)
    | none => none
  | c :: rest =>
    if c.toNat < 0x20 then none
    else (readString rest).map fun (cs, after) => (c :: cs, after)

end

/-- Digits at the beginning of a text, and the rest. -/
def takeDigits (cs : List Char) : List Char × List Char :=
  (cs.takeWhile Char.isDigit, cs.dropWhile Char.isDigit)

/-- The digits before the point, without leading zeros. -/
def readWhole : List Char → Option (List Char × List Char)
  | '0' :: rest => some (['0'], rest)
  | c :: rest => if c.isDigit then some (takeDigits (c :: rest)) else none
  | [] => none

/-- The digits after a point, if there are any. -/
def readFraction (cs : List Char) : Option (List Char × List Char) :=
  match cs with
  | '.' :: rest => if (takeDigits rest).1.isEmpty then none else some (takeDigits rest)
  | _ => none

/-- Read digits with a sign. -/
def readSigned (cs : List Char) : Option (Int × List Char) :=
  let value (digits : List Char) : Int := ofDigits (digits.map fun c => c.toNat - 48)
  let (negative, rest) := match cs with
    | '-' :: rest => (true, rest)
    | '+' :: rest => (false, rest)
    | rest => (false, rest)
  let (digits, after) := takeDigits rest
  if digits.isEmpty then none else some (if negative then -value digits else value digits, after)

/-- Read an exponent, if any. -/
def readExponent (cs : List Char) : Option (Int × List Char) :=
  match cs with
  | c :: rest => if c == 'e' || c == 'E' then readSigned rest else none
  | [] => none

/-- Read a number. -/
def readNumber (cs : List Char) : Option (Value × List Char) := do
  let (negative, cs) := match cs with
    | '-' :: rest => (true, rest)
    | rest => (false, rest)
  let (whole, cs) ← readWhole cs
  let fraction := readFraction cs
  let cs := (fraction.map (·.2)).getD cs
  let exponent := readExponent cs
  let rest := (exponent.map (·.2)).getD cs
  let value (digits : List Char) : Nat := ofDigits (digits.map fun c => c.toNat - 48)
  match fraction, exponent with
  | none, none =>
    if whole.length > digitLimit then none
    else return (.int (if negative then -(value whole : Int) else value whole), rest)
  | _, _ =>
    let decimals := (fraction.map (·.1)).getD []
    return (.float (.ofDecimal negative (value (whole ++ decimals))
      ((exponent.map (·.1)).getD 0 - decimals.length)), rest)

/-- The rest of a text after a fixed beginning. -/
def after? (start : String) (cs : List Char) : Option (List Char) :=
  if start.toList.isPrefixOf cs then some (cs.drop start.length) else none

/-- Values that are words. -/
def wordValues : List (String × Value) :=
  [("null", .null), ("true", .bool true), ("false", .bool false), ("NaN", .float .nan),
   ("Infinity", .float (.infinite false)), ("-Infinity", .float (.infinite true))]

/-- Read a word that stands for a value, or a number. -/
def readScalar (cs : List Char) : Option (Value × List Char) :=
  (wordValues.findSome? fun (word, value) => (after? word cs).map (value, ·)).or (readNumber cs)

/-- What was read, where nothing stands for a malformed text. -/
def wellFormed {α : Type} : Option α → Except Fault α
  | some a => .ok a
  | none => .error .malformed

/-- One level less of the room for nested containers. -/
def enter (container : Container) : Nat → Except Fault Nat
  | 0 => .error (.tooDeep container)
  | room + 1 => .ok room

section

variable [Host]

mutual

/-- Read a value by its first character, with room for containers. -/
def readValue : Nat → Nat → List Char → Except Fault (Value × List Char)
  | 0, _, _ => .error .malformed
  | fuel + 1, room, cs =>
    match cs with
    | '"' :: rest => do
      let (s, after) ← wellFormed (readString rest)
      return (.text (String.ofList s), after)
    | '[' :: rest => do
      let room ← enter .list room
      match skipSpace rest with
      | ']' :: after => return (.list [], after)
      | rest =>
        let (items, after) ← readItems fuel room rest
        return (.list items, after)
    | '\x7b' :: rest => do
      let room ← enter .table room
      match skipSpace rest with
      | '\x7d' :: after => return (.table [], after)
      | rest =>
        let (entries, after) ← readEntries fuel room [] rest
        return (.table entries, after)
    | cs => wellFormed (readScalar cs)

/-- Read items up to and with the closing bracket. -/
def readItems : Nat → Nat → List Char → Except Fault (List Value × List Char)
  | 0, _, _ => .error .malformed
  | fuel + 1, room, cs => do
    let (v, cs) ← readValue fuel room cs
    match skipSpace cs with
    | ']' :: after => return ([v], after)
    | ',' :: rest =>
      let (items, after) ← readItems fuel room (skipSpace rest)
      return (v :: items, after)
    | _ => .error .malformed

/-- Read more entries with the closing brace. -/
def readEntries : Nat → Nat → Keyed Value → List Char → Except Fault (Keyed Value × List Char)
  | 0, _, _, _ => .error .malformed
  | fuel + 1, room, entries, cs =>
    match cs with
    | '"' :: rest => do
      let (key, cs) ← wellFormed (readString rest)
      match skipSpace cs with
      | ':' :: rest =>
        let (v, cs) ← readValue fuel room (skipSpace rest)
        let entries := entries.put (String.ofList key) v
        match skipSpace cs with
        | '\x7d' :: after => return (entries, after)
        | ',' :: rest => readEntries fuel room entries (skipSpace rest)
        | _ => .error .malformed
      | _ => .error .malformed
    | _ => .error .malformed

end

/-- Read one value with blanks around it, with room for containers. -/
def read (room : Nat) (cs : List Char) : Except Fault Value := do
  let (v, rest) ← readValue (2 * cs.length + 1) room (skipSpace cs)
  if (skipSpace rest).isEmpty then return v else .error .malformed

/-- Read a text that may be malformed, which gives nothing. -/
def readIfWellFormed (room : Nat) (cs : List Char) : Except Fault (Option Value) :=
  match read room cs with
  | .ok v => .ok (some v)
  | .error .malformed => .ok none
  | .error e => .error e

end

end SiteAtlas.Data.Json
