/-!
# Texts as lists of characters

Sources are lists of characters, so that every position counts one code point: search, split, join.
-/

namespace SiteAtlas.Text

/-- Whether `part` occurs in a text as a run of neighbouring characters. -/
def contains (part : List Char) : List Char → Bool
  | [] => part.isEmpty
  | c :: rest => part.isPrefixOf (c :: rest) || contains part rest

/-- Containing a part is having it as infix. -/
theorem contains_iff {part : List Char} (cs : List Char) :
    contains part cs = true ↔ part <:+: cs := by
  induction cs with
  | nil => simp [contains, List.isEmpty_iff]
  | cons c rest ih =>
    simp [contains, ih, List.isPrefixOf_iff_prefix, List.infix_cons_iff]

/-- Split at every occurrence of a separator: `n` give `n + 1` parts. -/
def splitOn (separator : Char) : List Char → List (List Char)
  | [] => [[]]
  | c :: rest =>
    if c = separator then [] :: splitOn separator rest
    else match splitOn separator rest with
      | [] => [[c]]
      | part :: parts => (c :: part) :: parts

/-- Splitting gives a part at least. -/
theorem splitOn_ne_nil (separator : Char) (cs : List Char) : splitOn separator cs ≠ [] := by
  induction cs with
  | nil => simp [splitOn]
  | cons c rest ih =>
    unfold splitOn
    split
    · simp
    · split <;> simp

/-- Put a separator between neighbouring parts. -/
def join (separator : List Char) : List (List Char) → List Char
  | [] => []
  | [part] => part
  | part :: parts => part ++ separator ++ join separator parts

/-- Joining the parts of a split with its separator gives the text back. -/
theorem join_splitOn (separator : Char) (cs : List Char) :
    join [separator] (splitOn separator cs) = cs := by
  induction cs with
  | nil => rfl
  | cons c rest ih =>
    unfold splitOn
    split
    · rename_i h
      subst h
      cases hs : splitOn c rest with
      | nil => exact absurd hs (splitOn_ne_nil c rest)
      | cons part parts => rw [hs] at ih; simp [join, ih]
    · cases hs : splitOn separator rest with
      | nil => exact absurd hs (splitOn_ne_nil separator rest)
      | cons part parts =>
        rw [hs] at ih
        cases parts with
        | nil => simpa [join] using ih
        | cons next others => simpa [join] using ih

/-- Split at every separator; `skip` characters belong to one. -/
def splitAfter (separator : List Char) : Nat → List Char → List (List Char)
  | _, [] => [[]]
  | skip + 1, _ :: rest => splitAfter separator skip rest
  | 0, c :: rest =>
    if separator.isPrefixOf (c :: rest) then [] :: splitAfter separator (separator.length - 1) rest
    else match splitAfter separator 0 rest with
      | [] => [[c]]
      | part :: parts => (c :: part) :: parts

/-- Split at every separator, from left to right. -/
def splitOnText (separator : String) (cs : List Char) : List (List Char) :=
  splitAfter separator.toList 0 cs

/-- Split at the first occurrences of a separator, at most `limit`. -/
def splitAtMost (separator : String) (limit : Nat) (cs : List Char) : List (List Char) :=
  let parts := splitOnText separator cs
  if parts.length ≤ limit + 1 then parts
  else parts.take limit ++ [join separator.toList (parts.drop limit)]

/-- The number of occurrences of a separator, from left to right. -/
def countText (separator : String) (cs : List Char) : Nat :=
  (splitOnText separator cs).length - 1

/-- The part of a text after the last separator, or all of it. -/
def afterLast (separator : Char) (cs : List Char) : List Char :=
  (cs.reverse.takeWhile (· ≠ separator)).reverse

/-- Append an item unless the list has it already. -/
def addUnique {α : Type} [BEq α] (items : List α) (item : α) : List α :=
  if items.contains item then items else items ++ [item]

/-- A list without repetitions, in order of first occurrence. -/
def unique {α : Type} [BEq α] (items : List α) : List α :=
  items.foldl addUnique []

/-- Pairs of texts in order: by the first, and then by the second. -/
def pairLE (a b : String × String) : Bool :=
  if a.1 < b.1 then true else if a.1 = b.1 then decide (a.2 ≤ b.2) else false

/-- Whether a string occurs within another. -/
def stringContains (part whole : String) : Bool :=
  contains part.toList whole.toList

/-- Join texts with a separator. -/
def joinStrings (separator : String) (parts : List String) : String :=
  separator.intercalate parts

end SiteAtlas.Text
