import SiteAtlas.Pattern.Expression.Node
import SiteAtlas.Pattern.Expression.Token
import SiteAtlas.Text.Identifier

/-!
# Groups in written patterns

Which groups are open or closed while a pattern is read, with their names and widths. A look behind
may refer only to groups closed before it.
-/

namespace SiteAtlas.Expression

/-- What is known about groups while a pattern is read. -/
structure Groups where
  /-- Widths of the groups from 1 on; none while a group is open. -/
  widths : List (Option (Nat × Nat)) := []
  /-- Numbers of groups with a name. -/
  names : List (List Char × Nat) := []
  /-- The first group within a look behind. -/
  behindFrom : Option Nat := none
  /-- Numbers that conditions refer to. -/
  conditions : List Nat := []

namespace Groups

/-- The number of the next group. -/
def next (g : Groups) : Nat := g.widths.length + 1

/-- The width of a closed group. -/
def closed? (g : Groups) (n : Nat) : Option (Nat × Nat) :=
  if n = 0 then none else (g.widths[n - 1]?).join

/-- Open a group; a name can be given once only. -/
def opened? (g : Groups) (name : Option (List Char)) : Option Groups :=
  let g' := { g with widths := g.widths ++ [none] }
  match name with
  | none => some g'
  | some name =>
    if (g.names.lookup name).isSome then none
    else some { g' with names := (name, g.next) :: g.names }

/-- Close a group. -/
def closedWith (g : Groups) (n : Nat) (row : List Node) : Groups :=
  { g with widths := g.widths.set (n - 1) (some (widthOf row)) }

/-- Whether a look behind may refer to a group. -/
def allowsReference (g : Groups) (n : Nat) : Bool :=
  match g.behindFrom with
  | none => true
  | some first => (g.closed? n).isSome && n < first

/-- Read a capture again by number: the group has to be closed. -/
def echo (g : Groups) (n : Nat) : Except ExpressionError Node :=
  match g.closed? n with
  | some width => if g.allowsReference n then .ok (.echo n width) else .error .malformed
  | none => .error .malformed

/-- The largest number of a group. -/
def limit : Nat := 1073741823

/-- The group of a condition. -/
def conditionGroup (g : Groups) (name : List Char) : Except ExpressionError (Nat × Groups) := do
  let (n, g) ← if Text.isIdentifier name then
      match g.names.lookup name with
      | some n => .ok (n, g)
      | none => .error .malformed
    else match Number.readInteger name with
      | .ok (.ofNat n) =>
        if n = 0 || n ≥ limit then .error .malformed
        else .ok (n, { g with conditions := n :: g.conditions })
      | _ => .error .malformed
  if g.allowsReference n then return (n, g) else .error .malformed

end Groups

/-- The kinds of groups, by how they begin. -/
inductive GroupStart where
  /-- A group that captures, with a name or without. -/
  | capture (name : Option (List Char))
  /-- A group that does not capture, with its change of flags. -/
  | plain (change : Option FlagChange)
  | atomic
  | look (behind expected : Bool)
  /-- A group that depends on a capture. -/
  | condition (name : List Char)
  /-- A capture that is read again by name. -/
  | echo (name : List Char)
  | comment

/-- Read flag letters. -/
def readFlagLetters : FlagLetters → List Token → Except ExpressionError (FlagLetters × List Token)
  | letters, .plain c :: ts =>
    if c = ')' || c = '-' || c = ':' then .ok (letters, .plain c :: ts)
    else match letters.add? c with
      | some letters => readFlagLetters letters ts
      | none => .error .malformed
  | _, _ => .error .malformed

/-- Read the flags of a group up to and with its colon. Flags for the whole pattern are refused. -/
def readFlags (ts : List Token) : Except ExpressionError (FlagChange × List Token) := do
  let (on, ts) ← readFlagLetters {} ts
  match ts with
  | .plain ':' :: ts => return ({ on }, ts)
  | .plain '-' :: ts =>
    let (off, rest) ← readFlagLetters {} ts
    match rest with
    | .plain ':' :: rest =>
      let change : FlagChange := { on, off }
      if ts.head? != some (.plain ':') && change.isAllowed then return (change, rest)
      else .error .malformed
    | _ => .error .malformed
  | _ => .error .malformed

/-- Read the name of a group. -/
def readName (terminator : Char) (ts : List Token) :
    Except ExpressionError (List Char × List Token) := do
  let (name, ts) ← takeUntil terminator ts
  if Text.isIdentifier name then return (name, ts) else .error .malformed

/-- Read how a group begins. -/
def readGroupStart (ts : List Token) : Except ExpressionError (GroupStart × List Token) :=
  match ts with
  | .plain '?' :: ts =>
    match ts with
    | .plain 'P' :: .plain '<' :: ts =>
      (readName '>' ts).map fun (name, ts) => (.capture (some name), ts)
    | .plain 'P' :: .plain '=' :: ts => (readName ')' ts).map fun (name, ts) => (.echo name, ts)
    | .plain ':' :: ts => .ok (.plain none, ts)
    | .plain '#' :: ts => .ok (.comment, ts)
    | .plain '=' :: ts => .ok (.look false true, ts)
    | .plain '!' :: ts => .ok (.look false false, ts)
    | .plain '<' :: .plain '=' :: ts => .ok (.look true true, ts)
    | .plain '<' :: .plain '!' :: ts => .ok (.look true false, ts)
    | .plain '(' :: ts => (takeUntil ')' ts).map fun (name, ts) => (.condition name, ts)
    | .plain '>' :: ts => .ok (.atomic, ts)
    | ts => (readFlags ts).map fun (change, ts) => (.plain (some change), ts)
  | ts => .ok (.capture none, ts)

/-- Read a closing parenthesis. -/
def closeGroup : List Token → Except ExpressionError (List Token)
  | .plain ')' :: ts => .ok ts
  | _ => .error .malformed

end SiteAtlas.Expression
