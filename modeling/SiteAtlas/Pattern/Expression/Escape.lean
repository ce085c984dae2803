import SiteAtlas.Pattern.Expression.Node
import SiteAtlas.Pattern.Expression.Token

/-!
# Escapes and sets in written patterns

A backslash gives a character another meaning: a control character, a class, or a code point by
digits or name. Sets stand between brackets.
-/

namespace SiteAtlas.Expression

variable [Host]

/-- The value of hexadecimal, decimal or octal digits. -/
def digitsIn (base : Nat) (cs : List Char) : Nat :=
  cs.foldl (fun n c =>
    base * n + (if c.isDigit then c.toNat - 48 else c.toLower.toNat - 87)) 0

/-- Hexadecimal digits. -/
def isHex (c : Char) : Bool :=
  c.isDigit || ('a' ≤ c && c ≤ 'f') || ('A' ≤ c && c ≤ 'F')

/-- Octal digits. -/
def isOctal (c : Char) : Bool :=
  '0' ≤ c && c ≤ '7'

/-- The code point of a control escape. -/
def controlEscape? (c : Char) : Option Nat :=
  List.lookup c [('a', 7), ('b', 8), ('f', 12), ('n', 10), ('r', 13), ('t', 9),
    ('v', 11), ('\\', 92)]

/-- The class of an escape. -/
def classEscape? (c : Char) : Option SetMember :=
  List.lookup c [('d', .named .digit false), ('D', .named .digit true), ('s', .named .blank false),
     ('S', .named .blank true), ('w', .named .word false), ('W', .named .word true)]

/-- A code point given by an exact number of hexadecimal digits. -/
def hexEscape (count : Nat) (ts : List Token) : Except ExpressionError (Nat × List Token) :=
  let (digits, rest) := takePlain isHex count ts
  let n := digitsIn 16 digits
  if digits.length ≠ count then .error .malformed
  else if n ≤ 0x10ffff then .ok (n, rest)
  else .error (if n < 0x80000000 then .malformed else .codeTooLarge)

/-- A code point by the name between braces. -/
def nameEscape : List Token → Except ExpressionError (Nat × List Token)
  | .plain '\x7b' :: ts => do
    let r ← takeUntil '\x7d' ts
    match Host.charNamed? r.1 with
    | some n => .ok (n, r.2)
    | none => .error .malformed
  | _ => .error .malformed

/-- A code point by digits or name, if announced. -/
def codeEscape? (c : Char) (ts : List Token) : Option (Except ExpressionError (Nat × List Token)) :=
  match c with
  | 'x' => some (hexEscape 2 ts)
  | 'u' => some (hexEscape 4 ts)
  | 'U' => some (hexEscape 8 ts)
  | 'N' => some (nameEscape ts)
  | _ => none

/-- The code point of an escaped character that means itself. -/
def selfEscape (c : Char) (ts : List Token) : Except ExpressionError (Nat × List Token) :=
  if c.isAlpha || c.isDigit then .error .malformed else .ok (c.toNat, ts)

/-- Read an escape in a set. -/
def setEscape (c : Char) (ts : List Token) : Except ExpressionError (SetMember × List Token) :=
  match controlEscape? c, classEscape? c with
  | some n, _ => .ok (.code n, ts)
  | none, some m => .ok (m, ts)
  | none, none =>
    if isOctal c then
      let (more, rest) := takePlain isOctal 2 ts
      let n := digitsIn 8 (c :: more)
      if n ≤ 0o377 then .ok (.code n, rest) else .error .malformed
    else ((codeEscape? c ts).getD (selfEscape c ts)).map fun (n, rest) => (.code n, rest)

/-- Read one end of a range or a single member of a set. -/
def setAtom : Token → List Token → Except ExpressionError (SetMember × List Token)
  | .plain c, ts => .ok (.code c.toNat, ts)
  | .escaped c, ts => setEscape c ts

/-- Read members up to the bracket. -/
def readMembers : Nat → List SetMember → List Token →
    Except ExpressionError (List SetMember × List Token)
  | 0, _, _ => .error .malformed
  | _ + 1, _, [] => .error .malformed
  | fuel + 1, members, t :: ts =>
    if t = .plain ']' && !members.isEmpty then .ok (members.reverse, ts)
    else do
      let (first, ts) ← setAtom t ts
      match ts with
      | .plain '-' :: [] => .error .malformed
      | .plain '-' :: .plain ']' :: ts => .ok ((.code '-'.toNat :: first :: members).reverse, ts)
      | .plain '-' :: u :: ts =>
        let (last, ts) ← setAtom u ts
        match first, last with
        | .code a, .code b =>
          if a ≤ b then readMembers fuel (.range a b :: members) ts else .error .malformed
        | _, _ => .error .malformed
      | ts => readMembers fuel (first :: members) ts

/-- Read a set. -/
def readSet (ts : List Token) : Except ExpressionError (Node × List Token) := do
  let (complement, ts) := match ts with
    | .plain '^' :: ts => (true, ts)
    | ts => (false, ts)
  let (members, ts) ← readMembers (ts.length + 1) [] ts
  return (setNode complement members, ts)

/-- Conditions on a position that are written with a backslash. -/
def placeEscape? (c : Char) : Option Place :=
  List.lookup c [('A', .textStart), ('Z', .textEnd), ('b', .wordEdge), ('B', .wordInside)]

end SiteAtlas.Expression
