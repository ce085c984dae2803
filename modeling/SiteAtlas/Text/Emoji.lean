import SiteAtlas.Text.CellWidth
import SiteAtlas.Text.CharName
import SiteAtlas.Text.Emoji.Names

/-!
# Emoji by name

An emoji is one character, or several shown as one. Many are named as their characters, with
underscores for blanks, or in a table of further names. People are joined with what they are or do,
and families of their members. Other entries have a name, a sign, and code points in hexadecimal
with dashes between, from 1f000 on by their last three digits, and a flag by its country's letters.
The sign is a tilde if the emoji comes in skin tones, a caret if a flag is also named as the flag
for its country, and else an equals sign.
-/

namespace SiteAtlas.Text

/-- The value of a small hexadecimal digit. -/
def smallHexValue (c : Char) : Nat :=
  if c.isDigit then c.toNat - 48 else c.toNat - 87

/-- The character of a code point in hexadecimal. -/
def charOfHex (digits : List Char) : Char :=
  let code := digits.foldl (fun n c => 16 * n + smallHexValue c) 0
  Char.ofNat (if digits.length = 3 then 0x1f000 + code else code)

/-- The characters of the code points in an entry. -/
def emojiOfCodes (codes : List Char) : List Char :=
  if codes.all Char.isUpper then codes.map fun c => Char.ofNat (0x1f1e6 + (c.toNat - 65))
  else (splitOn '-' codes).map charOfHex

/-- The emoji of an entry with the sign before it, if the entry is for a name. -/
def entryEmoji? (name entry : List Char) : Option (Char × List Char) :=
  if entry.takeWhile (fun c => c != '=' && c != '~' && c != '^') = name then
    match entry.drop name.length with
    | sign :: codes => some (sign, emojiOfCodes codes)
    | [] => none
  else none

/-- What the entries in some lines hold for a name. -/
def entryIn? (lines : List String) (name : List Char) : Option (Char × List Char) :=
  lines.findSome? fun line => (splitOn ' ' line.toList).findSome? (entryEmoji? name)

/-- The flag for a country. -/
def flagFor? (name : List Char) : Option (Char × List Char) := do
  let country ← afterStart? "flag_for_" name
  (entryIn? emojiLines country).filter (·.1 == '^')

/-- The words for persons in names, with the code points that show them. -/
def persons : List (String × Nat) :=
  [("man", 0x1f468), ("woman", 0x1f469), ("girl", 0x1f467), ("boy", 0x1f466)]

/-- Families that have an emoji. -/
def families : List String :=
  ["man", "woman", "man_man", "man_woman", "woman_woman"].flatMap fun parents =>
    ["boy", "girl", "boy_boy", "girl_boy", "girl_girl"].map (parents ++ "_" ++ ·)

/-- The emoji of a family. -/
def familyEmoji? (name : List Char) : Option (Char × List Char) := do
  let members ← afterStart? "family_" name
  guard (families.contains (String.ofList members))
  let codes := (splitOn '_' members).filterMap (persons.lookup <| String.ofList ·)
  return ('=', (codes.map Char.ofNat).intersperse joiner)

/-- A man or a woman who is or does something. -/
def personEmoji? (name : List Char) : Option (Char × List Char) :=
  [("man_", 0x1f468, '\u2642'), ("woman_", 0x1f469, '\u2640')].findSome? fun (start, code, sex) => do
    let manner ← afterStart? start name
    let role := (entryIn? roleLines manner).map fun (sign, shown) =>
      (sign, Char.ofNat code :: joiner :: shown)
    role.or <| (entryIn? actionLines manner).map fun (sign, actor) =>
      (sign, actor ++ [joiner, sex, '\ufe0f'])

/-- An emoji that is named as its character, with the sign that an entry would have. -/
def charEmoji? (name : List Char) : Option (Char × List Char) := do
  let code ← charNamed? name
  guard (inRanges charEmojiRanges code)
  return (if inRanges tonedCharRanges code then '~' else '=', [.ofNat code])

/-- The emoji named as its character. -/
def symbolEmoji? (name : List Char) : Option (Char × List Char) := do
  guard (name.all fun c => c.isAlphanum || c == '_' || c == '-' || c == '.')
  let wanted := name.map fun c => if c == '_' then ' ' else c.toUpper
  let further := (findFurther symbolEmojiNames wanted).map fun (sign, code) =>
    (if sign == ';' then '~' else '=', [.ofNat code])
  further.or (charEmoji? wanted)

/-- The emoji without skin tone. -/
def findEmoji? (name : List Char) : Option (Char × List Char) :=
  [entryIn? emojiLines, flagFor?, familyEmoji?, personEmoji?, symbolEmoji?].findSome? (· name)

/-- How names of emoji in skin tones end, with the code points of the tones. -/
def skinTones : List (String × Nat) :=
  [("_light_skin_tone", 0x1f3fb), ("_medium-light_skin_tone", 0x1f3fc),
   ("_medium_skin_tone", 0x1f3fd), ("_medium-dark_skin_tone", 0x1f3fe),
   ("_dark_skin_tone", 0x1f3ff)]

/-- An emoji in a skin tone, after its first character. -/
def withTone (tone : Char) : List Char → List Char
  | first :: '\ufe0f' :: rest => first :: tone :: rest
  | first :: rest => first :: tone :: rest
  | [] => []

/-- The emoji of a name that ends in a skin tone. -/
def tonedEmoji? (name : List Char) (ending : String) (tone : Char) : Option (List Char) :=
  if ending.toList.isSuffixOf name then
    match findEmoji? (name.take (name.length - ending.length)) with
    | some ('~', emoji) => some (withTone tone emoji)
    | _ => none
  else none

/-- The emoji with a name. -/
def emojiNamed? (name : List Char) : Option (List Char) :=
  (skinTones.findSome? fun (ending, tone) => tonedEmoji? name ending (.ofNat tone)).or
    ((findEmoji? name).map (·.2))

end SiteAtlas.Text
