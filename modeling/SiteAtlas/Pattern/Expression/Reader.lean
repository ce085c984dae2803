import SiteAtlas.Pattern.Expression.Escape
import SiteAtlas.Pattern.Expression.Group

/-!
# Reading written patterns

Literals, sets, repetitions, groups, alternatives, anchors, looks ahead and behind, references to
and conditions on captures, atomic groups and flags.
-/

namespace SiteAtlas.Expression

variable [Host]

/-- A part that was read, the groups then, and the rest. -/
abbrev Part (α : Type) := α × Groups × List Token

/-- Read a bound of a repetition. -/
def readCount (digits : List Char) : Except ExpressionError Nat :=
  if digits.length > Number.digitLimit then .error (.countTooLong digits.length)
  else
    let n := digitsIn 10 digits
    if n < countLimit then .ok n else .error .repeatTooLarge

/-- The least count and, if bounded, the largest. -/
abbrev Bounds := Nat × Option Nat

/-- Read the bounds in braces, if they are some. -/
def readBounds (ts : List Token) : Except ExpressionError (Option (Bounds × List Token)) :=
  if ts.head? = some (.plain '\x7d') then .ok none
  else
    let (low, ts) := takePlain Char.isDigit ts.length ts
    let (high, ts) := match ts with
      | .plain ',' :: ts => takePlain Char.isDigit ts.length ts
      | ts => (low, ts)
    match ts with
    | .plain '\x7d' :: ts => do
      let least ← if low.isEmpty then .ok 0 else readCount low
      if high.isEmpty then return some ((least, none), ts)
      let most ← readCount high
      if most < least then .error .malformed else return some ((least, some most), ts)
    | _ => .ok none

/-- The bounds of a repetition mark, and the rest. -/
def readMark (t : Token) (ts : List Token) :
    Except ExpressionError (Option (Bounds × List Token)) :=
  match t with
  | .plain '?' => .ok (some ((0, some 1), ts))
  | .plain '*' => .ok (some ((0, none), ts))
  | .plain '+' => .ok (some ((1, none), ts))
  | .plain '\x7b' => readBounds ts
  | _ => .ok none

/-- After a mark, `?` is lazy and `+` possessive. -/
def readManner : List Token → Manner × List Token
  | .plain '?' :: ts => (.lazy, ts)
  | .plain '+' :: ts => (.possessive, ts)
  | ts => (.greedy, ts)

/-- Repeat the last node of a reversed row, if possible. -/
def repeatLast (bounds : Bounds) (nodes : List Node) (ts : List Token) :
    Except ExpressionError (List Node × List Token) :=
  match nodes with
  | [] => .error .malformed
  | .place _ :: _ => .error .malformed
  | .loop _ _ _ _ :: _ => .error .malformed
  | n :: others =>
    let (manner, ts) := readManner ts
    .ok (.loop manner bounds.1 bounds.2 n.unwrapped :: others, ts)

/-- Read an octal code or the number of a group. -/
def digitEscape (g : Groups) (c : Char) (ts : List Token) :
    Except ExpressionError (Node × List Token) :=
  if c = '0' then
    let (more, rest) := takePlain isOctal 2 ts
    .ok (.literal (digitsIn 8 more), rest)
  else
    match takePlain Char.isDigit 1 ts with
    | ([d], rest) =>
      match isOctal c && isOctal d, takePlain isOctal 1 rest with
      | true, ([e], after) =>
        let n := digitsIn 8 [c, d, e]
        if n ≤ 0o377 then .ok (.literal n, after) else .error .malformed
      | _, _ => (g.echo (digitsIn 10 [c, d])).map (·, rest)
    | _ => (g.echo (digitsIn 10 [c])).map (·, ts)

/-- Read an escape. -/
def readEscape (g : Groups) (c : Char) (ts : List Token) :
    Except ExpressionError (Node × List Token) :=
  match placeEscape? c, classEscape? c, controlEscape? c with
  | some which, _, _ => .ok (.place which, ts)
  | none, some m, _ => .ok (.set false [m], ts)
  | none, none, some n => .ok (.literal n, ts)
  | none, none, none =>
    if c.isDigit then digitEscape g c ts
    else ((codeEscape? c ts).getD (selfEscape c ts)).map fun (n, rest) => (.literal n, rest)

/-- Read a node of one token. -/
def readAtom (g : Groups) (t : Token) (ts : List Token) :
    Except ExpressionError (Node × List Token) :=
  match t with
  | .escaped c => readEscape g c ts
  | .plain '[' => readSet ts
  | .plain '.' => .ok (.any, ts)
  | .plain '^' => .ok (.place .lineStart, ts)
  | .plain '$' => .ok (.place .lineEnd, ts)
  | .plain c => .ok (.literal c.toNat, ts)

/-- Whether the verbose flag makes a token a blank to skip. -/
def isSkipped (verbose : Bool) : Token → Bool
  | .plain c => verbose && Text.isAsciiBlank c
  | .escaped _ => false

/-- Whether a token begins a comment, if verbose. -/
def startsComment (verbose : Bool) (t : Token) : Bool :=
  verbose && t = .plain '#'

/-- Whether blanks and comments are skipped from here on. -/
def verboseAfter (verbose : Bool) (change : Option FlagChange) : Bool :=
  change.elim verbose fun change => (({ verbose } : Flags).changed change).verbose

mutual

/-- Read alternatives. -/
def readAlternatives : Nat → Bool → Groups → List Token →
    Except ExpressionError (Part (List (List Node)))
  | 0, _, _, _ => .error .malformed
  | fuel + 1, verbose, g, ts => do
    let (row, g, ts) ← readRow fuel verbose g [] ts
    match ts with
    | .plain '|' :: ts =>
      let (others, g, ts) ← readAlternatives fuel verbose g ts
      return (row :: others, g, ts)
    | ts => return ([row], g, ts)

/-- Read a row up to its end, onto a reversed row. -/
def readRow : Nat → Bool → Groups → List Node → List Token →
    Except ExpressionError (Part (List Node))
  | 0, _, _, _, _ => .error .malformed
  | _ + 1, _, g, nodes, [] => .ok (nodes.reverse.flatMap Node.unwrapped, g, [])
  | fuel + 1, verbose, g, nodes, t :: ts =>
    if t = .plain '|' || t = .plain ')' then
      .ok (nodes.reverse.flatMap Node.unwrapped, g, t :: ts)
    else if isSkipped verbose t then readRow fuel verbose g nodes ts
    else if startsComment verbose t then
      readRow fuel verbose g nodes ((ts.dropWhile (· != .plain '\n')).drop 1)
    else if t = .plain '(' then do
      let (node, g, ts) ← readGroup fuel verbose g ts
      readRow fuel verbose g (node.toList ++ nodes) ts
    else do
      match ← readMark t ts with
      | some (bounds, ts) =>
        let (nodes, ts) ← repeatLast bounds nodes ts
        readRow fuel verbose g nodes ts
      | none =>
        let (node, ts) ← readAtom g t ts
        readRow fuel verbose g (node :: nodes) ts

/-- Read a group after its parenthesis; a comment is none. -/
def readGroup : Nat → Bool → Groups → List Token → Except ExpressionError (Part (Option Node))
  | 0, _, _, _ => .error .malformed
  | fuel + 1, verbose, g, ts => do
    let (start, ts) ← readGroupStart ts
    match start with
    | .comment =>
      let ts ← closeGroup (ts.dropWhile (· != .plain ')'))
      return (none, g, ts)
    | .echo name =>
      match g.names.lookup name with
      | some n =>
        let node ← g.echo n
        return (some node, g, ts)
      | none => .error .malformed
    | .capture name =>
      let n := g.next
      match g.opened? name with
      | none => .error .malformed
      | some g =>
        let (rows, g, ts) ← readAlternatives fuel verbose g ts
        let ts ← closeGroup ts
        let body := joinAlternatives rows
        return (some (.group (some n) none body), g.closedWith n body, ts)
    | .plain change =>
      let (rows, g, ts) ← readAlternatives fuel (verboseAfter verbose change) g ts
      let ts ← closeGroup ts
      return (some (.group none change (joinAlternatives rows)), g, ts)
    | .atomic =>
      let (rows, g, ts) ← readAlternatives fuel verbose g ts
      let ts ← closeGroup ts
      return (some (.atomic (joinAlternatives rows)), g, ts)
    | .look behind expected =>
      let outer := g.behindFrom
      let inner := if behind then outer.or (some g.next) else outer
      let (rows, g, ts) ← readAlternatives fuel verbose { g with behindFrom := inner } ts
      let ts ← closeGroup ts
      return (some (.look behind expected (joinAlternatives rows)), { g with behindFrom := outer },
        ts)
    | .condition name =>
      let (n, g) ← g.conditionGroup name
      let (yes, g, ts) ← readRow fuel verbose g [] ts
      let (no, g, ts) ← match ts with
        | .plain '|' :: ts => readRow fuel verbose g [] ts
        | ts => .ok ([], g, ts)
      let ts ← closeGroup ts
      return (some (.condition n yes no), g, ts)

end

/-- Read a written pattern. -/
def read (written : List Char) : Except ExpressionError (List Node) := do
  let ts ← tokens written
  let (rows, g, rest) ← readAlternatives (3 * ts.length + 3) false {} ts
  if rest.isEmpty && g.conditions.all (· < g.next) then return joinAlternatives rows
  else .error .malformed

end SiteAtlas.Expression
