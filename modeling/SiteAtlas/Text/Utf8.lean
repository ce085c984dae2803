import SiteAtlas.Text.Quoted

/-!
# File contents as text

Bytes are text if they are well-formed UTF-8: shortest forms, no surrogates, nothing beyond the last
code point. Reading turns every kind of line break into a line feed. A text with surrogates has no
bytes.
-/

namespace SiteAtlas.Text

/-- The low six bits of a continuation byte. -/
def continuation? (b : UInt8) : Option Nat :=
  if b.toNat / 64 = 2 then some (b.toNat % 64) else none

/-- A code point that is a character and needs at least `least`. -/
def charAbove? (least n : Nat) : Option Char :=
  if least ≤ n && n < 0x110000 && !(0xd800 ≤ n && n < 0xe000) then some (Char.ofNat n) else none

/-- The characters of well-formed UTF-8; none for other bytes. -/
def decodeUtf8 : List UInt8 → Option (List Char)
  | [] => some []
  | b :: rest =>
    if b.toNat < 0x80 then (decodeUtf8 rest).map (Char.ofNat b.toNat :: ·)
    else if b.toNat < 0xc0 then none
    else if b.toNat < 0xe0 then
      match rest with
      | x :: rest => do
        let c ← charAbove? 0x80 ((b.toNat % 32) * 64 + (← continuation? x))
        return c :: (← decodeUtf8 rest)
      | _ => none
    else if b.toNat < 0xf0 then
      match rest with
      | x :: y :: rest => do
        let c ← charAbove? 0x800
          (((b.toNat % 16) * 64 + (← continuation? x)) * 64 + (← continuation? y))
        return c :: (← decodeUtf8 rest)
      | _ => none
    else if b.toNat < 0xf8 then
      match rest with
      | x :: y :: z :: rest => do
        let c ← charAbove? 0x10000
          ((((b.toNat % 8) * 64 + (← continuation? x)) * 64 + (← continuation? y)) * 64 +
            (← continuation? z))
        return c :: (← decodeUtf8 rest)
      | _ => none
    else none

/-- Turn carriage returns, with or without a line feed after them, into line feeds. -/
def unifyNewlines : List Char → List Char
  | [] => []
  | '\r' :: '\n' :: rest => '\n' :: unifyNewlines rest
  | c :: rest => (if c = '\r' then '\n' else c) :: unifyNewlines rest

/-- The text of a file's bytes; none if they are not text. -/
def ofBytes? (bytes : List UInt8) : Option (List Char) :=
  (decodeUtf8 bytes).map unifyNewlines

/-- The bytes of a text without surrogates. -/
def toBytes (s : String) : List UInt8 :=
  s.toUTF8.toList

/-- Surrogates in a row, which keep a text from being written. -/
structure EncodeError where
  /-- How many characters come before them. -/
  position : Nat
  /-- Their code points. -/
  codes : List Nat
  deriving DecidableEq

/-- Where a text cannot be written. -/
def EncodeError.message (e : EncodeError) : String :=
  "'utf-8' codec can't encode character" ++ (match e.codes with
    | [code] => " '\\u" ++ String.ofList (hexDigits 4 code) ++ "' in position " ++
      toString e.position
    | codes => "s in position " ++ toString e.position ++ "-" ++
        toString (e.position + codes.length - 1)) ++ ": surrogates not allowed"

/-- The bytes of a text, unless it holds surrogates. -/
def encode [Host] (cs : List Char) : Except EncodeError (List UInt8) :=
  match cs.dropWhile (!isSurrogate ·) with
  | [] => .ok (toBytes (String.ofList cs))
  | rest => .error ⟨cs.length - rest.length, (rest.takeWhile isSurrogate).map codeOf⟩

end SiteAtlas.Text
