import SiteAtlas.Text.CodePoint

/-!
# Blank characters

The spaces and line breaks of every script, the information separators included.
-/

namespace SiteAtlas.Text

/-- The code points of blanks. -/
def blankRanges : List (Nat × Nat) :=
  [(0x9, 0xd), (0x1c, 0x20), (0x85, 0x85), (0xa0, 0xa0), (0x1680, 0x1680), (0x2000, 0x200a),
   (0x2028, 0x2029), (0x202f, 0x202f), (0x205f, 0x205f), (0x3000, 0x3000)]

/-- Whether `c` is blank. -/
def isBlank (c : Char) : Bool :=
  inRanges blankRanges c.toNat

/-- The blanks of the ASCII block that every dialect of patterns agrees on. -/
def isAsciiBlank (c : Char) : Bool :=
  c == ' ' || (9 ≤ c.toNat && c.toNat ≤ 13)

/-- Remove characters that satisfy `p` from the end. -/
def trimEndWhile (p : Char → Bool) (cs : List Char) : List Char :=
  (cs.reverse.dropWhile p).reverse

/-- Remove characters that satisfy `p` from both ends. -/
def trimWhile (p : Char → Bool) (cs : List Char) : List Char :=
  trimEndWhile p (cs.dropWhile p)

/-- Trim blanks. -/
def trim (cs : List Char) : List Char :=
  trimWhile isBlank cs

/-- Whether a text has no character other than blanks. -/
def isAllBlank (cs : List Char) : Bool :=
  cs.all isBlank

end SiteAtlas.Text
