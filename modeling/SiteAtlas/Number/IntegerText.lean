import SiteAtlas.Text.Blank
import SiteAtlas.Text.Digit
import SiteAtlas.Text.Quoted

/-!
# Integers written by people

An integer may have blanks around it, a sign, digits of any script and single underscores. Very
long ones are refused.
-/

namespace SiteAtlas.Number

/-- A number in at least so many digits. -/
def padded (width n : Nat) : String :=
  let digits := toString n
  String.ofList (List.replicate (width - digits.length) '0') ++ digits

/-- Why a text is no integer. -/
inductive IntegerError where
  /-- The text is not spelled like an integer. -/
  | malformed
  /-- The text has more digits than are read. -/
  | tooLong (digits : Nat)
  deriving DecidableEq

/-- The largest number of digits that is read. -/
def digitLimit : Nat := 4300

/-- What is said about too many digits. -/
def tooLongMessage (digits : Nat) : String :=
  "Exceeds the limit (" ++ toString digitLimit ++ " digits) for integer string conversion: " ++
    "value has " ++ toString digits ++ " digits; " ++
    "use sys.set_int_max_str_digits() to increase the limit"

/-- How much of a refused text a message shows. -/
def shownLimit : Nat := 200

/-- What is said about a text that is no integer. -/
def IntegerError.message [Host] (text : List Char) : IntegerError → String
  | .malformed => "invalid literal for int() with base 10: " ++
      String.ofList ((Text.quoted text).take shownLimit)
  | .tooLong digits => tooLongMessage digits

/-- Blanks that may surround a number. -/
def isSurrounding (c : Char) : Bool :=
  Text.isBlank c && !(0x1c ≤ c.toNat && c.toNat ≤ 0x1f)

/-- The values of digits with single underscores. -/
def digitValues? : List Char → Option (List Nat)
  | [] => none
  | [c] => (Text.digitValue? c).map ([·])
  | c :: '_' :: rest => do return (← Text.digitValue? c) :: (← digitValues? rest)
  | c :: rest => do return (← Text.digitValue? c) :: (← digitValues? rest)

/-- The number of decimal digits, leading digit first. -/
def ofDigits (digits : List Nat) : Nat :=
  digits.foldl (fun n d => 10 * n + d) 0

/-- Read an integer without sign. -/
def readUnsigned (cs : List Char) : Except IntegerError Nat :=
  match digitValues? cs with
  | none => .error .malformed
  | some digits =>
    if digits.length ≤ digitLimit then .ok (ofDigits digits) else .error (.tooLong digits.length)

/-- Read an integer. -/
def readInteger (cs : List Char) : Except IntegerError Int :=
  match Text.trimWhile isSurrounding cs with
  | '-' :: digits => (readUnsigned digits).map fun n => -(n : Int)
  | '+' :: digits => (readUnsigned digits).map Int.ofNat
  | digits => (readUnsigned digits).map Int.ofNat

end SiteAtlas.Number
