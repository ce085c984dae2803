import SiteAtlas.Pattern.Expression.Flags
import SiteAtlas.Text.Blank
import SiteAtlas.Text.Digit
import SiteAtlas.Text.Lower
import SiteAtlas.Text.Word

/-!
# Sets of characters in written patterns

Single code points, ranges and named classes. Where case is ignored, the folded form of a character
is looked for: it belongs to a member in the basic plane if a case variant does. Beyond that plane
a code point is compared as it is, a range also with the capital.
-/

namespace SiteAtlas.Expression

/-- Classes of characters with a name. -/
inductive NamedClass where
  | word
  | digit
  | blank
  deriving DecidableEq

/-- One member of a set of characters. -/
inductive SetMember where
  | code (n : Nat)
  | range (first last : Nat)
  | named (which : NamedClass) (complement : Bool)
  deriving DecidableEq

/-- The first code point beyond the plane. -/
def basicPlaneEnd : Nat := 0x10000

namespace Flags

/-- Word characters under the flags. -/
def isWord (flags : Flags) : Char → Bool :=
  if flags.ascii then Text.isAsciiWord else Text.isWord

/-- Membership in a named class under the flags. -/
def inClass (flags : Flags) : NamedClass → Char → Bool
  | .word, c => flags.isWord c
  | .digit, c => if flags.ascii then c.isDigit else Text.isDigit c
  | .blank, c => if flags.ascii then Text.isAsciiBlank c else Text.isBlank c

/-- The lower-case form where case is ignored. -/
def fold (flags : Flags) (c : Char) : Char :=
  if flags.ascii then c.toLower else Text.lowerChar c

/-- What a folded character is taken for. -/
def equals (flags : Flags) (folded : Char) : List Char :=
  if flags.ascii then [folded] else folded :: Text.caseSiblings folded

/-- Case variants of a folded character. -/
def variants (flags : Flags) (folded : Char) : List Char :=
  if flags.ascii then [folded, folded.toUpper]
  else (flags.equals folded).flatMap fun c => c :: Text.capitalsOf c

/-- Whether a character has case. -/
def hasCase (flags : Flags) (c : Char) : Bool :=
  if flags.ascii then c.isAlpha
  else Text.lowerChar c != c || !(Text.capitalsOf c).isEmpty || !(Text.caseSiblings c).isEmpty ||
    Text.inRanges Text.longCapitalRanges c.toNat

/-- Whether two characters are read as the same. -/
def same (flags : Flags) (a b : Char) : Bool :=
  if flags.ignoreCase then flags.fold a == flags.fold b else a == b

end Flags

/-- Whether a character lies between two code points. -/
def between (first last : Nat) (c : Char) : Bool :=
  first ≤ c.toNat && c.toNat ≤ last

namespace SetMember

/-- Whether a character belongs to a member as it is written. -/
def has (flags : Flags) : SetMember → Char → Bool
  | .code n, c => c.toNat == n
  | .range first last, c => between first last c
  | .named which complement, c => flags.inClass which c != complement

/-- Whether a member makes case matter. -/
def hasCase (flags : Flags) : SetMember → Bool
  | .code n => n ≥ basicPlaneEnd || flags.hasCase (Char.ofNat n)
  | .range first last =>
    last ≥ basicPlaneEnd ||
      (List.range' first (last + 1 - first)).any fun n => flags.hasCase (Char.ofNat n)
  | .named _ _ => false

/-- Whether a folded character belongs to a member. -/
def hasFolded (flags : Flags) : SetMember → Char → Bool
  | .code n, c =>
    if n < basicPlaneEnd then (flags.variants c).any (·.toNat == n) else c.toNat == n
  | .range first last, c =>
    (flags.variants c).any (fun d => d.toNat < basicPlaneEnd && between first last d) ||
      (last ≥ basicPlaneEnd && (c :: Text.capitalsOf c).any (between first last))
  | .named which complement, c => flags.inClass which c != complement

end SetMember

/-- What a search can tell from the first part of what follows. -/
inductive Lead where
  /-- A character with this code point has to come. -/
  | literal (code : Nat)
  | set (accepts : Char → Bool)
  /-- Nothing is known. -/
  | unknown

/-- Whether what stands at a spot may begin as a lead says. -/
def Lead.admits : Lead → List Char → Bool
  | .literal code, cs => cs.head?.any (·.toNat == code)
  | .set accepts, cs => cs.head?.any accepts
  | .unknown, _ => true

/-- A test of one character. -/
structure CharTest where
  accepts : Char → Bool
  /-- What the test tells a search in advance. -/
  lead : Lead := .unknown
  folds : Bool := false

namespace CharTest

/-- The test of a dot. -/
def any (flags : Flags) : CharTest :=
  { accepts := fun c => flags.dotAll || c != '\n' }

/-- One code point, or any other. -/
def literal (flags : Flags) (expected : Bool) (code : Nat) : CharTest :=
  let c := Char.ofNat code
  if flags.ignoreCase && flags.hasCase c then
    let folded := flags.equals (flags.fold c)
    { accepts := fun d => folded.contains (flags.fold d) == expected, folds := folded.length > 1 }
  else if expected then
    { accepts := fun d => d.toNat == code, lead := .literal code }
  else { accepts := fun d => d.toNat != code }

/-- The test of a set. -/
def set (flags : Flags) (complement : Bool) (members : List SetMember) : CharTest :=
  if flags.ignoreCase && members.any (·.hasCase flags) then
    { accepts := fun c => members.any (·.hasFolded flags (flags.fold c)) != complement
      folds := true }
  else
    let accepts := fun c => members.any (·.has flags c) != complement
    { accepts, lead := .set accepts }

end CharTest

end SiteAtlas.Expression
