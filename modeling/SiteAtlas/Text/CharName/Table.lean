import SiteAtlas.Text.CharName.Phrase

/-!
# Tables of character names

A table goes through the characters in ascending order. An entry begins with a sign that says what
it holds: a slash and a number, so many code points without a name; a number sign, a digit and a
number, so many names that count on from the one before, up to that digit; a semicolon and a number,
a name with so many first letters of the one before; a comma, one with as many as the last such
name. The name's own letters follow, and a full stop and a number if it ends in so many letters
like the one before, or a colon for the number given last. Numbers have capitals for digits.

In a table of further names a slash and a number lead to the next code point, and each of its names
follows a comma or a semicolon.
-/

namespace SiteAtlas.Text

/-- The value of a sign. -/
def signValue (sign : Char) : Nat :=
  if sign.isDigit then sign.toNat - 48 else sign.toNat - 55

/-- The number of signs. -/
def signNumber (signs : List Char) : Nat :=
  signs.foldl (fun n sign => 36 * n + signValue sign) 0

/-- The entries of a table. -/
def nameEntries (text : List Char) : List (Char × List Char) :=
  (text.foldr (fun c (own, entries) =>
    if [',', ';', '#', '/'].contains c then ([], (c, own) :: entries) else (c :: own, entries))
    ([], [])).2

/-- How far a table has been read. -/
structure NamePlace where
  /-- The code point of the next name. -/
  code : Nat
  name : List Char
  /-- The number of letters shared at the front. -/
  front : Nat
  /-- The number of letters shared at the end, the last time that any were. -/
  back : Nat

/-- The number that comes next, both with their last digits first. -/
def nextNumber (greatest : Char) : List Char → List Char
  | [] => ['1']
  | digit :: rest =>
    if digit = greatest then '0' :: nextNumber greatest rest
    else (if digit = '9' then 'A' else Char.ofNat (digit.toNat + 1)) :: rest

/-- The next names in number. -/
def countOn (greatest : Char) (name : List Char) : Nat → List (List Char)
  | 0 => []
  | n + 1 =>
    let next := (nextNumber greatest name.reverse).reverse
    next :: countOn greatest next n

/-- The name that ends in `back` letters of the one before. -/
def NamePlace.spell (place : NamePlace) (letters : List Char) (back : Nat) : List Char :=
  place.name.take place.front ++ letters ++ place.name.drop (place.name.length - back)

/-- Read a name. -/
def NamePlace.readName (place : NamePlace) (own : List Char) : List Char × NamePlace :=
  let letters := own.takeWhile fun c => c != '.' && c != ':'
  let (back, shared) := match own.drop letters.length with
    | [] => (place.back, 0)
    | ['.', sign] => (signValue sign, signValue sign)
    | _ => (place.back, place.back)
  let name := place.spell letters shared
  (name, { place with code := place.code + 1, name, back })

/-- Read an entry. -/
def NamePlace.readEntry (place : NamePlace) : Char × List Char → List (List Char) × NamePlace
  | ('/', signs) => ([], { place with code := place.code + signNumber signs })
  | ('#', greatest :: signs) =>
    let names := countOn greatest place.name (signNumber signs)
    (names, { place with code := place.code + names.length, name := names.getLastD place.name })
  | (';', sign :: own) =>
    let (name, next) := { place with front := signValue sign }.readName own
    ([name], next)
  | (_, own) =>
    let (name, next) := place.readName own
    ([name], next)

/-- The code point of a name among entries. -/
def findName (wanted : List Char) : NamePlace → List (Char × List Char) → Option Nat
  | _, [] => none
  | place, entry :: rest =>
    let (names, next) := place.readEntry entry
    match names.idxOf? wanted with
    | some k => some (place.code + k)
    | none => findName wanted next rest

/-- The code point of a name in a table. -/
def findInTable (wanted : List Char) (table : String) : Option Nat :=
  findName wanted ⟨0, [], 0, 0⟩ (nameEntries (expandPhrases table))

/-- The sign before a further name, among entries from a code point on. -/
def findFurtherFrom (wanted : List Char) : Nat → List (Char × List Char) → Option (Char × Nat)
  | _, [] => none
  | code, (sign, own) :: rest =>
    if sign = '/' then findFurtherFrom wanted (code + signNumber own) rest
    else if own = wanted then some (sign, code)
    else findFurtherFrom wanted code rest

/-- The sign before a name and its code point in a table of further names. -/
def findFurther (table : String) (wanted : List Char) : Option (Char × Nat) :=
  findFurtherFrom wanted 0 (nameEntries (expandPhrases table))

end SiteAtlas.Text
