import SiteAtlas.Data.Toml.QuotedText
import SiteAtlas.Number.IntegerText
import SiteAtlas.Text.Lower

/-!
# Numbers of TOML

Integers in four bases, decimals, and numbers that are not finite. `isPlainNumber` says where
underscores and zeros may stand.
-/

namespace SiteAtlas.Data.Toml

open SiteAtlas.Number

/-- Whether a part occurs in a text. -/
def has (part : String) (cs : List Char) : Bool :=
  Text.contains part.toList cs

/-- Whether underscores and leading zeros are where they may be. -/
def isPlainNumber (cs : List Char) : Bool :=
  let n := Text.trim cs
  let tail := match n with
    | '+' :: rest => rest
    | '-' :: rest => rest
    | n => n
  let zeroFirst (allowed : List Char) : List Char → Bool
    | '0' :: c :: _ => !allowed.contains c
    | _ => false
  !n.isEmpty && n.head? != some '_' && n.getLast? != some '_' && !has "_." n && !has "._" n &&
    (n.length == 1 ||
      (!zeroFirst ['.', 'o', 'b', 'x'] n && !(tail.length < n.length && zeroFirst ['.'] tail) &&
        !has "__" tail))

/-- A text with all digits as those of ASCII. -/
def plainDigits (cs : List Char) : List Char :=
  cs.map fun c => match Text.digitValue? c with
    | some d => Char.ofNat (48 + d)
    | none => c

/-- Read digits in a base. -/
def readDigits (base : Nat) (cs : List Char) : Option Nat := do
  if cs.isEmpty then none
  let digits ← cs.mapM hexValue?
  if digits.all (· < base) then return digits.foldl (fun n d => base * n + d) 0 else none

/-- An unsigned integer, with a base after a zero. -/
def readBased (cs : List Char) : Option Nat :=
  match cs with
  | '0' :: letter :: rest =>
    if letter = 'x' || letter = 'X' then readDigits 16 rest
    else if letter = 'o' || letter = 'O' then readDigits 8 rest
    else if letter = 'b' || letter = 'B' then readDigits 2 rest
    else if (letter :: rest).all (· == '0') then some 0
    else none
  | cs => (readUnsigned cs).toOption

/-- Read an integer with a sign. -/
def readSigned (cs : List Char) : Option Int :=
  match plainDigits (Text.trimWhile isSurrounding cs) with
  | '-' :: rest => (readBased rest).map fun n => -(n : Int)
  | '+' :: rest => (readBased rest).map Int.ofNat
  | cs => (readBased cs).map Int.ofNat

/-- Leading digits, and the rest. -/
def spanDigits (cs : List Char) : List Nat × List Char :=
  let digits := cs.takeWhile fun c => (Text.digitValue? c).isSome
  (digits.filterMap Text.digitValue?, cs.drop digits.length)

/-- Read an exponent, or zero. -/
def readExponent (cs : List Char) : Option Int :=
  match cs with
  | [] => some 0
  | e :: rest =>
    if e = 'e' || e = 'E' then
      let (negative, rest) := match rest with
        | '-' :: rest => (true, rest)
        | '+' :: rest => (false, rest)
        | rest => (false, rest)
      let (digits, rest) := spanDigits rest
      if digits.isEmpty || !rest.isEmpty then none
      else some (if negative then -(ofDigits digits : Int) else ofDigits digits)
    else none

/-- A decimal with point or exponent, without a sign. -/
def readDecimal (cs : List Char) : Option Binary64 := do
  let (whole, rest) := spanDigits (Text.trim cs)
  let (fraction, rest) := match rest with
    | '.' :: rest => spanDigits rest
    | rest => ([], rest)
  if whole.isEmpty && fraction.isEmpty then none
  let exponent ← readExponent rest
  return .ofDecimal false (ofDigits (whole ++ fraction)) (exponent - (fraction.length : Int))

/-- Read a number that is a word. -/
def readNamed (cs : List Char) : Option Binary64 :=
  match String.ofList (Text.lower cs) with
  | "inf" => some (.infinite false)
  | "nan" => some .nan
  | _ => none

/-- A number with the other sign. -/
def negated : Binary64 → Binary64
  | .finite negative mantissa exponent =>
    if mantissa = 0 then .finite false 0 0 else .finite (!negative) mantissa exponent
  | .infinite negative => .infinite (!negative)
  | .nan => .nan

/-- Whether a text is written like a decimal. -/
def isDecimal (cs : List Char) : Bool :=
  cs.contains '.' || (!cs.contains 'x' && (cs.contains 'e' || cs.contains 'E'))

/-- What follows the first point, if there is one. -/
def afterPoint? (cs : List Char) : Option (List Char) :=
  match cs.dropWhile (· != '.') with
  | [] => none
  | _ :: rest => some rest

/-- Read a decimal. -/
def readNumber? (cs : List Char) : Option Value :=
  let (negative, cs) := match cs with
    | '-' :: rest => (true, rest)
    | '+' :: rest => (false, rest)
    | cs => (false, cs)
  let cs := cs.filter (· != '_')
  let float (x : Binary64) : Value := .float (if negative then negated x else x)
  if isDecimal cs then
    if afterPoint? cs == some [] || !((cs.head?.map Char.isDigit).getD false) then none
    else (readDecimal cs).map float
  else match readNamed cs with
    | some x => some (float x)
    | none => (readSigned cs).map fun n => .int (if negative then -n else n)

/-- Whether underscores stand only between digits. -/
def underscoresBetween : List Char → Bool
  | [] => true
  | '_' :: _ => false
  | c :: '_' :: d :: rest =>
    (Text.digitValue? c).isSome && (Text.digitValue? d).isSome && underscoresBetween (d :: rest)
  | [_, '_'] => false
  | _ :: rest => underscoresBetween rest

/-- Whether a text is a decimal, with or without sign. -/
def isFloat (cs : List Char) : Bool :=
  let cs := Text.trim cs
  let cs := match cs with
    | '-' :: rest => rest
    | '+' :: rest => rest
    | cs => cs
  if underscoresBetween cs then
    let cs := cs.filter (· != '_')
    (cs.head?.all (!Text.isBlank ·) && (readDecimal cs).isSome) || (readNamed cs).isSome ||
      String.ofList (Text.lower cs) == "infinity"
  else false

end SiteAtlas.Data.Toml
