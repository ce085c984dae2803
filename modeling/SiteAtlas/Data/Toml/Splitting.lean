import SiteAtlas.Data.Toml.Number

/-!
# Splitting lines and arrays of TOML

Separators count only outside strings, which are every other piece between quotes. The items of an
array are cut at all commas and joined again until they end like the string they begin.
-/

namespace SiteAtlas.Data.Toml

/-- Pieces that begin with a single quote go on until it is closed. -/
def closeSingles (pieces : List (List Char)) :
    List (List Char) → List (List Char) × List (List Char)
  | [] => (pieces, [])
  | next :: rest =>
    if pieces.length % 2 = 0 then
      let opened := pieces.getLastD [] ++ '"' :: next
      closeSingles (pieces.dropLast ++ Text.splitOn '\x27' opened) rest
    else (pieces, next :: rest)

/-- Cut the first piece at single quotes. -/
def cutFirst : List (List Char) → List (List Char)
  | [] => []
  | first :: rest => Text.splitOn '\x27' first ++ rest

/-- Cut a line at its quotes. -/
def cutAtQuotes (line : List Char) : List (List Char) :=
  match Text.splitOn '"' line with
  | first :: next :: rest =>
    if first.contains '\x27' then
      let (singles, others) := closeSingles (Text.splitOn '\x27' first) (next :: rest)
      singles ++ cutFirst others
    else cutFirst (first :: next :: rest)
  | pieces => cutFirst pieces

/-- How many separators stand before one outside strings. -/
def separatorsBefore (separator : String) (quoted : Bool) : List (List Char) → Nat
  | [] => 0
  | piece :: rest =>
    if !quoted && has separator piece then 0
    else Text.countText separator piece + separatorsBefore separator (!quoted) rest

/-- Separators up to and with the first outside strings. -/
def firstSeparator (separator : String) (line : List Char) : Nat :=
  separatorsBefore separator false (cutAtQuotes line) + 1

/-- The parts of a text between dots outside strings. -/
def dotParts (quoted : Bool) : List (List Char) → List (List Char)
  | [] => []
  | piece :: rest =>
    (if quoted then [piece] else (Text.splitOn '.' piece).map Text.trim) ++ dotParts (!quoted) rest

/-- Whether a text begins and ends alike, the end not escaped. -/
def isBounded (cs : List Char) : Bool :=
  match cs with
  | [] => true
  | first :: rest => cs.getLast? == some first && !endsEscaped rest.dropLast

/-- Whether a string item does not end where it is cut. -/
def isCutShort (item : List Char) : Bool :=
  let cs := Text.trim item
  let opensTriple := match cs with
    | a :: b :: c :: _ =>
      a == b && b == c && cs.reverse[1]? != some a && cs.reverse[2]? != some a
    | _ => false
  !isBounded cs || opensTriple

/-- Join an item with those after it as long as it is cut short. -/
def extendItem (item : List Char) : List (List Char) → Except Fault (List Char × List (List Char))
  | [] => if isCutShort item then .error .noItem else .ok (item, [])
  | next :: rest =>
    if isCutShort item then extendItem (item ++ ',' :: next) rest else .ok (item, next :: rest)

/-- The items of an array of strings, the last one as it is. -/
def joinItems : Nat → List (List Char) → Except Fault (List (List Char))
  | fuel + 1, item :: next :: rest => do
    let (item, rest) ← extendItem item (next :: rest)
    return item :: (← joinItems fuel rest)
  | _, items => .ok items

/-- Split at commas outside brackets, onto a reversed item. -/
def splitNested (depth : Int) (item : List Char) : List Char → List (List Char)
  | [] => [item.reverse]
  | c :: rest =>
    if c = ',' && depth = 0 then item.reverse :: splitNested 0 [] rest
    else
      let depth := if c = '[' then depth + 1 else if c = ']' then depth - 1 else depth
      splitNested depth (c :: item) rest

/-- Whether an array begins with a string. -/
def isStringArray (cs : List Char) : Bool :=
  ((Text.trim (inner cs)).head?.map isQuote).getD false

/-- Where the search for tables in an array is. -/
structure BraceScan where
  start : Nat := 1
  place : Nat := 2
  depth : Nat
  inString : Bool := false

/-- Whether a string is open after a quote. -/
def afterQuote (inString : Bool) (before : List Char) : Bool :=
  !inString || endsEscaped before

/-- The tables in an array, brace to brace. -/
def splitTables (cs : Array Char) : Nat → BraceScan → List (List Char)
  | 0, _ => []
  | fuel + 1, s =>
    if s.place + 1 < cs.size then
      let c := cs.getD s.place ' '
      let inString :=
        if isQuote c then afterQuote s.inString (cs.toList.take s.place) else s.inString
      let depth := if !inString && c = '\x7b' then s.depth + 1 else s.depth
      let s := { s with place := s.place + 1, depth, inString }
      if inString || c ≠ '\x7d' then splitTables cs fuel s
      else if depth > 1 then splitTables cs fuel { s with depth := depth - 1 }
      else
        let gap := ((cs.toList.drop (s.place + 1)).takeWhile (· != '\x7b')).length
        let start := min (s.place + 1 + gap) (max (s.place + 1) (cs.size - 1))
        (cs.toList.take s.place).drop s.start ::
          splitTables cs fuel { s with start, place := start + 1 }
    else []

/-- The items of an array. -/
def arrayItems (cs : List Char) : Except Fault (List (List Char)) :=
  let body := inner cs
  let first := Text.trim body
  if first.head? = some '[' then .ok (splitNested 0 [] body)
  else
    let items := if first.head? = some '\x7b' then
        let depth := if cs[1]? = some '\x7b' then 1 else 0
        splitTables cs.toArray cs.length { depth }
      else Text.splitOn ',' body
    if isStringArray cs then joinItems items.length items else .ok items

/-- The last item of an open array; without a quote it belongs to the one before. -/
def lastOpenItem (item : List Char) : List (List Char) → Except Fault (List Char)
  | [] => .ok item
  | previous :: rest =>
    match item with
    | [] => .error .noChar
    | c :: _ => if isQuote c then .ok item else lastOpenItem (previous ++ ',' :: item) rest

/-- Whether a value opens a string and leaves it open. -/
def opensText (cs : List Char) : Except Fault Bool :=
  if cs.length < 3 then .ok false
  else do
    let last := (Text.trim cs).getLast?
    let p ← if cs.head? = some '[' && last != some ']' && isStringArray cs then
        match (Text.splitOn ',' (Text.trim cs.tail)).reverse with
        | [] => .error .noChar
        | item :: before => lastOpenItem item before
      else .ok cs
    match p with
    | [] => .error .noChar
    | [a] => if isQuote a then .error .noChar else .ok false
    | [a, b] => if isQuote a && a = b then .error .noChar else .ok false
    | a :: b :: c :: _ =>
      let ends := p.length > 5 && p.reverse.take 3 == [a, a, a]
      .ok (isQuote a && a == b && a == c && !ends)

end SiteAtlas.Data.Toml
