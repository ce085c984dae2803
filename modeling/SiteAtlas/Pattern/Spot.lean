/-!
# Spots in a text

A spot lies between two characters or at an end, and can be moved in both directions.
-/

namespace SiteAtlas

/-- A position in a text. -/
structure Spot where
  /-- The characters before the position, nearest first. -/
  before : List Char
  /-- The characters after the position. -/
  after : List Char
  /-- The number of characters before the position. -/
  offset : Nat

namespace Spot

/-- The beginning of a text. -/
def start (cs : List Char) : Spot :=
  ⟨[], cs, 0⟩

/-- The position past the next character, if that is in a class. -/
def next? (accepts : Char → Bool) (s : Spot) : Option Spot :=
  match s.after with
  | [] => none
  | c :: rest => if accepts c then some ⟨c :: s.before, rest, s.offset + 1⟩ else none

/-- Whether the next character is in a class. -/
def nextIs (accepts : Char → Bool) (s : Spot) : Bool :=
  match s.after with
  | [] => false
  | c :: _ => accepts c

/-- The position `n` characters earlier. -/
def back? : Nat → Spot → Option Spot
  | 0, s => some s
  | n + 1, s =>
    match s.before with
    | [] => none
    | c :: rest => back? n ⟨rest, c :: s.after, s.offset - 1⟩

/-- The characters up to a later position. -/
def upTo (s later : Spot) : List Char :=
  s.after.take (later.offset - s.offset)

/-- The position past characters that agree up to `same`. -/
def past? (same : Char → Char → Bool) : List Char → Spot → Option Spot
  | [], s => some s
  | c :: rest, s => (s.next? (same c)).bind (past? same rest)

/-- Positions reached by at most `bound` characters of a class, furthest first, ahead of those
passed. -/
def reach (accepts : Char → Bool) : Nat → Spot → List Spot → List Spot
  | 0, s, passed => s :: passed
  | bound + 1, s, passed =>
    match s.next? accepts with
    | some t => reach accepts bound t (s :: passed)
    | none => s :: passed

end Spot

end SiteAtlas
