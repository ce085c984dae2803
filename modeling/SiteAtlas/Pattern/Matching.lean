import SiteAtlas.Pattern.Basic

/-!
# Matching

A pattern hands every cursor it can reach to a continuation, in order of preference, until there is
an answer. A repetition ends after a turn that reads nothing, so the search always ends.
`Pattern.pieces` cuts a text into matches and the characters between them; finding and replacing are
read off the pieces.
-/

namespace SiteAtlas

/-- The first `length` characters from `rest` on. -/
structure Span where
  rest : List Char
  length : Nat

/-- The text of a span. -/
def Span.text (s : Span) : List Char :=
  s.rest.take s.length

/-- A position with what was captured on the way. -/
structure Cursor extends Spot where
  /-- Captured spans by index, latest first. -/
  captures : List (Nat × Span)

namespace Cursor

/-- The position past the next character, if that is in a class. -/
def read? (accepts : Char → Bool) (c : Cursor) : Option Cursor :=
  (c.toSpot.next? accepts).map fun s => ⟨s, c.captures⟩

/-- Remember what was read between `start` and `c`. -/
def remember (c : Cursor) (index : Nat) (start : Cursor) : Cursor :=
  { c with captures := (index, ⟨start.after, c.offset - start.offset⟩) :: c.captures }

/-- What is remembered under an index. -/
def recalled? (c : Cursor) (index : Nat) : Option Span :=
  c.captures.lookup index

/-- The position past what is remembered, read again. -/
def readAgain? (c : Cursor) (index : Nat) : Option Cursor := do
  let span ← c.recalled? index
  let s ← c.toSpot.past? (· == ·) span.text
  return ⟨s, c.captures⟩

end Cursor

/-- Take `n` turns of `step`. -/
def turns {β : Type} (step : Cursor → (Cursor → Option β) → Option β) :
    Nat → Cursor → (Cursor → Option β) → Option β
  | 0, c, k => k c
  | n + 1, c, k => step c fun d => turns step n d k

/-- Take at most `bound` turns, none after an empty one. -/
def furtherTurns {β : Type} (step : Cursor → (Cursor → Option β) → Option β)
    (eagerness : Eagerness) : Nat → Cursor → (Cursor → Option β) → Option β
  | 0, c, k => k c
  | bound + 1, c, k =>
    match eagerness with
    | .greedy =>
      (step c fun d =>
        if d.offset = c.offset then k d else furtherTurns step eagerness bound d k).or (k c)
    | .lazy =>
      (k c).or (step c fun d =>
        if d.offset = c.offset then k d else furtherTurns step eagerness bound d k)

/-- How many turns can make a difference at a cursor. -/
def turnBound (extra : Option Nat) (c : Cursor) : Nat :=
  match extra with
  | none => c.after.length + 1
  | some n => min n (c.after.length + 1)

namespace Pattern

/-- Try a pattern at a cursor: the first answer over the cursors it reaches, in order of preference.
-/
def run : Pattern → {β : Type} → Cursor → (Cursor → Option β) → Option β
  | .empty, _, c, k => k c
  | .one accepts, _, c, k => (c.read? accepts).bind k
  | .seq first second, _, c, k => run first c fun d => run second d k
  | .either first second, _, c, k => (run first c k).or (run second c k)
  | .loop eagerness least extra body, _, c, k =>
    turns (run body) least c fun d =>
      furtherTurns (run body) eagerness (turnBound extra d) d k
  | .capture index body, _, c, k => run body c fun d => k (d.remember index c)
  | .again index, _, c, k => (c.readAgain? index).bind k
  | .anchor place, _, c, k => if place.holds c.toSpot then k c else none
  | .notAhead body, _, c, k =>
    match run body c some with
    | some _ => none
    | none => k c

end Pattern

/-- A match of a pattern in a text. -/
structure Match where
  /-- The number of characters before the match. -/
  offset : Nat
  /-- The characters that were read. -/
  text : List Char
  /-- Captured spans by index, latest first. -/
  captures : List (Nat × Span)

namespace Match

/-- The text captured under an index. -/
def group? (m : Match) (index : Nat) : Option (List Char) :=
  (m.captures.lookup index).map Span.text

/-- The text captured under an index, or the empty text. -/
def group (m : Match) (index : Nat) : List Char :=
  (m.group? index).getD []

/-- The string captured under an index, or the empty string. -/
def groupString (m : Match) (index : Nat) : String :=
  String.ofList (m.group index)

end Match

/-- A text is cut into matches and the characters between them. -/
inductive Piece where
  | plain (c : Char)
  | hit (found : Match)

/-- The match of a piece. -/
def Piece.hit? : Piece → Option Match
  | .plain _ => none
  | .hit m => some m

namespace Pattern

/-- Match at a position, given what is before it, nearest first. -/
def matchAt (p : Pattern) (before : List Char) (offset : Nat) (after : List Char) : Option Match :=
  (p.run ⟨⟨before, after, offset⟩, []⟩ some).map fun d =>
    ⟨offset, after.take (d.offset - offset), d.captures⟩

/-- Match a pattern at the beginning of a text. -/
def matchStart? (p : Pattern) (cs : List Char) : Option Match :=
  p.matchAt [] 0 cs

/-- The pieces from a position on, `skip` characters matched. -/
def piecesFrom (p : Pattern) : Nat → List Char → Nat → List Char → List Piece
  | _, _, _, [] => []
  | skip + 1, before, offset, c :: rest => piecesFrom p skip (c :: before) (offset + 1) rest
  | 0, before, offset, c :: rest =>
    match p.matchAt before offset (c :: rest) with
    | some m => .hit m :: piecesFrom p (m.text.length - 1) (c :: before) (offset + 1) rest
    | none => .plain c :: piecesFrom p 0 (c :: before) (offset + 1) rest

/-- Cut a text from left to right into matches and the characters between them. The pattern is
meant to read something wherever it matches. -/
def pieces (p : Pattern) (cs : List Char) : List Piece :=
  p.piecesFrom 0 [] 0 cs

/-- All matches in a text, from left to right. -/
def findAll (p : Pattern) (cs : List Char) : List Match :=
  (p.pieces cs).filterMap Piece.hit?

/-- The leftmost match from a position on. -/
def findFrom? (p : Pattern) : List Char → Nat → List Char → Option Match
  | _, _, [] => none
  | before, offset, c :: rest =>
    (p.matchAt before offset (c :: rest)).or (findFrom? p (c :: before) (offset + 1) rest)

/-- The leftmost match. -/
def find? (p : Pattern) (cs : List Char) : Option Match :=
  p.findFrom? [] 0 cs

/-- Whether a pattern matches somewhere in a text. -/
def occursIn (p : Pattern) (cs : List Char) : Bool :=
  (p.find? cs).isSome

/-- Replace all matches. -/
def replaceAll (p : Pattern) (replacement : Match → List Char) (cs : List Char) : List Char :=
  (p.pieces cs).flatMap fun
    | .plain c => [c]
    | .hit m => replacement m

/-- Delete all matches. -/
def eraseAll (p : Pattern) (cs : List Char) : List Char :=
  p.replaceAll (fun _ => []) cs

/-- The leftmost match is the first of all matches. -/
theorem findFrom?_eq_head? (p : Pattern) (cs : List Char) :
    ∀ before offset, p.findFrom? before offset cs =
      ((p.piecesFrom 0 before offset cs).filterMap Piece.hit?).head? := by
  induction cs with
  | nil => intro before offset; rfl
  | cons c rest ih =>
    intro before offset
    unfold findFrom? piecesFrom
    cases p.matchAt before offset (c :: rest) with
    | none => simp [ih, List.findSome?_cons, Piece.hit?]
    | some m => simp [Piece.hit?]

/-- The leftmost match is the first of all. -/
theorem find?_eq_head? (p : Pattern) (cs : List Char) : p.find? cs = (p.findAll cs).head? :=
  findFrom?_eq_head? p cs [] 0

end Pattern

end SiteAtlas
