/-!
# Code point ranges

Classes beyond ASCII are ascending lists of inclusive ranges. A long one is written by its steps,
outside the class and in it by turns. In a line of signs each number ends with one of 44 signs from
`0` on, and only a greater number has signs from `]` on before it.
-/

namespace SiteAtlas.Text

/-- Whether `n` lies in one of the inclusive ranges. -/
def inRanges (table : List (Nat × Nat)) (n : Nat) : Bool :=
  table.any fun range => range.1 ≤ n && n ≤ range.2

/-- The ranges from a code point on, by the lengths outside and inside them. -/
def rangesFrom : Nat → List Nat → List (Nat × Nat)
  | start, outside :: inside :: rest =>
    (start + outside, start + outside + inside - 1) :: rangesFrom (start + outside + inside) rest
  | _, _ => []

/-- The numbers in a line of signs, the first one begun. -/
def numbersIn : Nat → List Char → List Nat
  | _, [] => []
  | high, sign :: rest =>
    if sign < ']' then (44 * high + (sign.toNat - 48)) :: numbersIn 0 rest
    else numbersIn (30 * high + (sign.toNat - 93)) rest

/-- The numbers in lines of signs. -/
def numbersOf (lines : List String) : List Nat :=
  lines.flatMap (numbersIn 0 ·.toList)

/-- The ranges whose steps are written in lines of signs. -/
def rangesOf (lines : List String) : List (Nat × Nat) :=
  rangesFrom 0 (numbersOf lines)

/-- A code point is in one of the ranges. -/
theorem inRanges_iff {table : List (Nat × Nat)} {n : Nat} :
    inRanges table n = true ↔ ∃ range ∈ table, range.1 ≤ n ∧ n ≤ range.2 := by
  simp [inRanges, List.any_eq_true]

end SiteAtlas.Text
