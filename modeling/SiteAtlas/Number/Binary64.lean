/-!
# Binary floating-point numbers

Numbers with 53 significant bits. A decimal is read as the nearest one, ties to the even one, and a
number is written with the fewest digits that read back, the nearest of those. All arithmetic is
exact.
-/

namespace SiteAtlas.Number

/-- A floating-point number; `mantissa * 2 ^ exponent` if finite. -/
inductive Binary64 where
  | finite (negative : Bool) (mantissa : Nat) (exponent : Int)
  | infinite (negative : Bool)
  | nan
  deriving DecidableEq, Inhabited

/-- A positive fraction, times a power of the base. -/
def scaled (base n : Nat) (e : Int) : Nat × Nat :=
  if 0 ≤ e then (n * base.pow e.toNat, 1) else (n, base.pow (-e).toNat)

/-- Divide and round to nearest, ties to even. -/
def divRound (a b : Nat) : Nat :=
  let q := a / b
  let r := a % b
  if 2 * r < b then q else if b < 2 * r then q + 1 else if q % 2 = 0 then q else q + 1

/-- The least exponent. -/
def leastExponent : Int := -1074

/-- The greatest exponent. -/
def greatestExponent : Int := 971

/-- The exponent for 53 bits, or the least one. -/
def exponentFor (a b : Nat) : Int :=
  let guess : Int := (a.log2 : Int) - (b.log2 : Int) - 52
  -- The quotient has 53 bits at `guess`, or 52 bits and then 53 at `guess - 1`.
  let (x, y) := scaled 2 b guess
  let exponent := if a * y < x * Nat.pow 2 52 then guess - 1 else guess
  max exponent leastExponent

/-- The mantissa of a quotient at an exponent, rounded. -/
def mantissaAt (a b : Nat) (exponent : Int) : Nat :=
  if 0 ≤ exponent then divRound a (b * Nat.pow 2 exponent.toNat)
  else divRound (a * Nat.pow 2 (-exponent).toNat) b

namespace Binary64

/-- The number nearest to a quotient of natural numbers. -/
def ofQuotient (negative : Bool) (a b : Nat) : Binary64 :=
  if a = 0 then .finite negative 0 0
  else
    let exponent := exponentFor a b
    let mantissa := mantissaAt a b exponent
    let (mantissa, exponent) :=
      if mantissa = Nat.pow 2 53 then (Nat.pow 2 52, exponent + 1) else (mantissa, exponent)
    if exponent > greatestExponent then .infinite negative
    else .finite negative mantissa exponent

/-- The number nearest to `digits * 10 ^ exponent`; far beyond the range its magnitude decides. -/
def ofDecimal (negative : Bool) (digits : Nat) (exponent : Int) : Binary64 :=
  let magnitude : Int := (Nat.toDigits 10 digits).length + exponent
  if digits = 0 || magnitude < -400 then .finite negative 0 0
  else if magnitude > 400 then .infinite negative
  else
    let (a, b) := scaled 10 digits exponent
    ofQuotient negative a b

/-- Whether a number is zero. -/
def isZero : Binary64 → Bool
  | .finite _ mantissa _ => mantissa == 0
  | _ => false

/-- The integer part of a number; none if it is not finite. -/
def truncate? : Binary64 → Option Int
  | .finite negative mantissa exponent =>
    let n : Nat :=
      if 0 ≤ exponent then mantissa * Nat.pow 2 exponent.toNat
      else mantissa / Nat.pow 2 (-exponent).toNat
    some (if negative then -(n : Int) else n)
  | _ => none

/-- The number of digits before the point of `a / b`. -/
def decimalPoint (a b : Nat) : Int :=
  if b ≤ a then (Nat.toDigits 10 (a / b)).length
  else
    -- `b / a` has `n` digits, so the quotient lies between `10 ^ -n` and `10 ^ (1 - n)`.
    let n := (Nat.toDigits 10 (b / a)).length
    if b ≤ a * Nat.pow 10 (n - 1) then 2 - (n : Int) else 1 - (n : Int)

/-- A decimal by its digits and a power of ten. -/
abbrev Decimal := Nat × Int

/-- The decimal with `count` digits next below a quotient. -/
def gridFloor (a b : Nat) (count : Nat) : Decimal :=
  let e : Int := decimalPoint a b - count
  if 0 ≤ e then (a / (b * Nat.pow 10 e.toNat), e) else (a * Nat.pow 10 (-e).toNat / b, e)

/-- A multiple of the distance of a decimal to a quotient. -/
def distance (a b : Nat) (d : Decimal) : Nat :=
  let (x, y) := scaled 10 d.1 d.2
  if a * y ≤ x * b then x * b - a * y else a * y - x * b

/-- The decimal of `count` digits that reads back, the nearer one. -/
def decimal? (mantissa : Nat) (exponent : Int) (count : Nat) : Option Decimal :=
  let (a, b) := scaled 2 mantissa exponent
  let low := gridFloor a b count
  let high : Decimal := (low.1 + 1, low.2)
  let readsBack (d : Decimal) : Bool :=
    ofDecimal false d.1 d.2 == .finite false mantissa exponent
  match readsBack low, readsBack high with
  | true, true =>
    let toLow := distance a b low
    let toHigh := distance a b high
    if toLow < toHigh || (toLow == toHigh && low.1 % 2 == 0) then some low else some high
  | true, false => some low
  | false, true => some high
  | false, false => none

/-- The shortest decimal that reads back as a positive number. -/
def shortest (mantissa : Nat) (exponent : Int) : Decimal :=
  ((List.range' 1 17).findSome? (decimal? mantissa exponent)).getD (mantissa, 0)

/-- Digits without final zeros, and a power of ten for them. -/
def dropZeros : Nat → Nat → Int → Decimal
  | fuel + 1, n, e => if n ≠ 0 && n % 10 = 0 then dropZeros fuel (n / 10) (e + 1) else (n, e)
  | 0, n, e => (n, e)

/-- Decimal digits. -/
def digits (n : Nat) : List Char :=
  Nat.toDigits 10 n

/-- A positive decimal, positional from `0.0001` to below `10 ^ 16`. -/
def decimalText (d : Decimal) : List Char :=
  let (n, e) := dropZeros 20 d.1 d.2
  let ds := digits n
  let point : Int := ds.length + e
  if -4 < point && point ≤ 16 then
    if e ≥ 0 then ds ++ List.replicate e.toNat '0' ++ ".0".toList
    else if point ≤ 0 then "0.".toList ++ List.replicate (-point).toNat '0' ++ ds
    else ds.take point.toNat ++ '.' :: ds.drop point.toNat
  else
    let power := point - 1
    let ps := digits power.natAbs
    ds.take 1 ++ (if ds.length > 1 then '.' :: ds.drop 1 else []) ++
      ['e', if power < 0 then '-' else '+'] ++ (if ps.length < 2 then '0' :: ps else ps)

/-- The text of a number. -/
def text : Binary64 → List Char
  | .nan => "nan".toList
  | .infinite negative => if negative then "-inf".toList else "inf".toList
  | .finite negative mantissa exponent =>
    let sign := if negative then ['-'] else []
    if mantissa = 0 then sign ++ "0.0".toList
    else sign ++ decimalText (shortest mantissa exponent)

end Binary64

end SiteAtlas.Number
