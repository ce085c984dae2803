import SiteAtlas.Keyed
import SiteAtlas.Number.Binary64
import SiteAtlas.Text.Quoted

/-!
# Data values

What configuration files hold: scalars, moments, lists and keyed tables. Where a text is expected,
other values are shown in a plain form.
-/

namespace SiteAtlas.Data

open SiteAtlas.Number

/-- The kinds of moments. -/
inductive MomentKind where
  | date
  | time
  | dateTime
  deriving DecidableEq

/-- A date or a time, by its texts. -/
structure Moment where
  kind : MomentKind
  /-- How it is written in a file. -/
  written : String
  /-- How it is shown by itself. -/
  plain : String
  /-- How it is shown within a list or table. -/
  shown : String
  deriving DecidableEq

/-- A value of a configuration or catalog file. -/
inductive Value where
  | null
  | bool (b : Bool)
  | int (n : Int)
  | float (x : Binary64)
  | text (s : String)
  | moment (m : Moment)
  | list (items : List Value)
  | table (entries : List (String × Value))
  deriving Inhabited

/-- Decimal digits of an integer. -/
def intText (n : Int) : List Char :=
  if n < 0 then '-' :: Nat.toDigits 10 n.natAbs else Nat.toDigits 10 n.natAbs

namespace Value

/-- Whether a value says nothing: null, false, zero, or empty. -/
def isVoid : Value → Bool
  | .null => true
  | .bool b => !b
  | .int n => n == 0
  | .float x => x.isZero
  | .text s => s.isEmpty
  | .moment _ => false
  | .list items => items.isEmpty
  | .table entries => entries.isEmpty

section

variable [Host]

mutual

/-- The plain form of a value within another. -/
def shown : Value → List Char
  | .null => "None".toList
  | .bool true => "True".toList
  | .bool false => "False".toList
  | .int n => intText n
  | .float x => x.text
  | .text s => Text.quoted s.toList
  | .moment m => m.shown.toList
  | .list items => '[' :: shownItems items ++ [']']
  | .table entries => '\x7b' :: shownEntries entries ++ ['\x7d']

/-- Items in plain form, separated by commas. -/
def shownItems : List Value → List Char
  | [] => []
  | [v] => v.shown
  | v :: w :: rest => v.shown ++ ", ".toList ++ shownItems (w :: rest)

/-- Entries in plain form, separated by commas. -/
def shownEntries : List (String × Value) → List Char
  | [] => []
  | [(k, v)] => Text.quoted k.toList ++ ": ".toList ++ v.shown
  | (k, v) :: e :: rest =>
    Text.quoted k.toList ++ ": ".toList ++ v.shown ++ ", ".toList ++ shownEntries (e :: rest)

end

/-- The plain form of a value: texts stand for themselves. -/
def plain : Value → String
  | .text s => s
  | .moment m => m.plain
  | v => String.ofList v.shown

end

/-- The entry of a table for a key. -/
def entry? : Value → String → Option Value
  | .table entries, key => Keyed.get? entries key
  | _, _ => none

end Value

end SiteAtlas.Data
