import SiteAtlas.Number.IntegerText

/-!
# Counts on the command line

A count may have blanks around it, a plus sign, leading zeros, single underscores and decimals that
are all zero; only so many plain digits are taken.
-/

namespace SiteAtlas.Number

/-- The rest of a number after leading zeros and underscores, given the character before it. One
character stays if nothing or a point follows. -/
def afterZeros (last : Char) : List Char → Option (List Char)
  | [] => some [last]
  | c :: rest =>
    if c = '0' || c = '_' then afterZeros c rest
    else if c.isDigit then some (c :: rest)
    else if c = '.' then some (last :: c :: rest)
    else none

/-- A number without leading zeros, if it begins with a digit. -/
def withoutLeadingZeros : List Char → Option (List Char)
  | [] => none
  | c :: rest =>
    if c = '0' then afterZeros c rest else if c.isDigit then some (c :: rest) else none

/-- Drop decimals that are zero. -/
def withoutZeroDecimals (cs : List Char) : List Char :=
  match cs.dropWhile (· != '.') with
  | _ :: d :: decimals =>
    if (d :: decimals).all (· == '0') then cs.takeWhile (· != '.') else cs
  | _ => cs

/-- A number without underscores, if they stand alone. -/
def withoutUnderscores (cs : List Char) : List Char :=
  if (Text.splitOn '_' cs).any List.isEmpty then cs else cs.filter (· != '_')

/-- Read a count. -/
def readCount? (cs : List Char) : Option Nat := do
  let cs := Text.trimWhile isSurrounding cs
  let cs := if cs.head? = some '+' then cs.drop 1 else cs
  let digits := withoutUnderscores (withoutZeroDecimals (← withoutLeadingZeros cs))
  if digits.all Char.isDigit && digits.length ≤ digitLimit then
    return ofDigits (digits.map fun c => c.toNat - 48)
  else none

end SiteAtlas.Number
