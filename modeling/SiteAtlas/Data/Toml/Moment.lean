import SiteAtlas.Data.Toml.QuotedText
import SiteAtlas.Number.IntegerText

/-!
# Dates and times of TOML

A value begins with a time of day, or is a date of ten characters, perhaps with a time, a fraction
of a second and an offset. What separates the numbers of a date does not matter.
-/

namespace SiteAtlas.Data.Toml

open SiteAtlas.Number (padded)

/-- The number in some characters of a text. -/
def numberIn (cs : List Char) (start stop : Nat) : Option Nat :=
  match Number.readInteger ((cs.take stop).drop start) with
  | .ok n => if n < 0 then none else some n.toNat
  | .error _ => none

/-- The days of a month. -/
def daysIn (year month : Nat) : Nat :=
  if month = 2 then if year % 4 = 0 && (year % 100 != 0 || year % 400 = 0) then 29 else 28
  else if [4, 6, 9, 11].contains month then 30 else 31

/-- A time of day. -/
structure Clock where
  hour : Nat
  minute : Nat
  second : Nat
  micros : Nat := 0

namespace Clock

/-- Whether there is such a time. -/
def isValid (t : Clock) : Bool :=
  t.hour < 24 && t.minute < 60 && t.second < 60 && t.micros < 1000000

/-- A time of day as it is written. -/
def text (t : Clock) : String :=
  padded 2 t.hour ++ ":" ++ padded 2 t.minute ++ ":" ++ padded 2 t.second ++
    (if t.micros = 0 then "" else "." ++ padded 6 t.micros)

/-- The numbers of a time of day, without trailing zeros. -/
def numbers (t : Clock) : String :=
  toString t.hour ++ ", " ++ toString t.minute ++
    (if t.second = 0 && t.micros = 0 then "" else ", " ++ toString t.second) ++
    (if t.micros = 0 then "" else ", " ++ toString t.micros)

end Clock

/-- A time of day that begins a text. -/
def readTime? (cs : List Char) : Option Moment :=
  match cs with
  | a :: b :: ':' :: c :: d :: ':' :: e :: f :: rest =>
    if [a, b, c, d, e, f].all Char.isDigit then
      let digits := match rest with
        | '.' :: rest => (rest.takeWhile Char.isDigit).take 6
        | _ => []
      let digits := if digits.length < 3 then [] else digits
      let t : Clock :=
        { hour := (numberIn [a, b] 0 2).getD 0, minute := (numberIn [c, d] 0 2).getD 0
          second := (numberIn [e, f] 0 2).getD 0, micros := (numberIn digits 0 6).getD 0 }
      if t.isValid then some ⟨.time, t.text, t.text, "datetime.time(" ++ t.numbers ++ ")"⟩ else none
    else none
  | _ => none

/-- An offset from universal time, as it is written. -/
def readOffset? (cs : List Char) : Option String :=
  if cs = ['Z'] then some "+00:00"
  else do
    let hours ← numberIn cs 1 3
    let minutes ← numberIn cs 4 6
    return (if cs.head? = some '-' && 0 < hours + minutes then "-" else "+") ++
      padded 2 (hours + minutes / 60) ++ ":" ++ padded 2 (minutes % 60)

/-- The fraction of a second and the offset of a moment. -/
def readFraction (cs : List Char) : Nat × Option String :=
  match cs with
  | '.' :: rest =>
    let digits := rest.takeWhile fun c => c != '+' && c != '-' && c != 'Z' && c != 'z'
    let offset := rest.drop digits.length
    match numberIn digits 0 digits.length with
    | some n => (if digits.length ≤ 6 then n * Nat.pow 10 (6 - digits.length)
        else n / Nat.pow 10 (digits.length - 6),
        if offset = ['z'] then some "+00:00" else readOffset? offset)
    | none => (0, none)
  | cs => (0, readOffset? cs)

/-- A date, with a time of day or without. -/
def readDate? (cs : List Char) : Option Moment := do
  guard ((cs.drop 1).contains '-')
  let year ← numberIn cs 0 4
  let month ← numberIn cs 5 7
  let day ← numberIn cs 8 10
  guard (1 ≤ year && 1 ≤ month && month ≤ 12 && 1 ≤ day && day ≤ daysIn year month)
  let date := padded 4 year ++ "-" ++ padded 2 month ++ "-" ++ padded 2 day
  let numbers := toString year ++ ", " ++ toString month ++ ", " ++ toString day
  if cs.length = 10 then return ⟨.date, date, date, "datetime.date(" ++ numbers ++ ")"⟩
  let (micros, offset) := readFraction (cs.drop 19)
  let t : Clock := { hour := ← numberIn cs 11 13, minute := ← numberIn cs 14 16
                     second := ← numberIn cs 17 19, micros }
  guard t.isValid
  let zone := offset.getD ""
  return ⟨.dateTime, date ++ "T" ++ t.text ++ (if zone = "+00:00" then "Z" else zone),
    date ++ " " ++ t.text ++ zone,
    "datetime.datetime(" ++ numbers ++ ", " ++ t.numbers ++
      (if offset.isSome then ", tzinfo=<toml.tz.TomlTz object>)" else ")")⟩

/-- A date or a time. -/
def readMoment? (cs : List Char) : Option Moment :=
  (readTime? cs).or (readDate? cs)

end SiteAtlas.Data.Toml
