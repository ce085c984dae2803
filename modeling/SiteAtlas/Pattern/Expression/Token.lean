import SiteAtlas.Number.IntegerText

/-!
# Tokens of written patterns

A written pattern is a row of characters, some of them preceded by a backslash.
-/

namespace SiteAtlas.Expression

/-- Why a written pattern is refused. -/
inductive ExpressionError where
  /-- The text is not a pattern. -/
  | malformed
  /-- A repetition asks for more turns than are ever counted. -/
  | repeatTooLarge
  /-- A repetition count has more digits than are read. -/
  | countTooLong (digits : Nat)
  /-- A look behind goes back further than a search can. -/
  | behindTooFar
  /-- An escape gives a number that is far beyond all code points. -/
  | codeTooLarge
  deriving DecidableEq

/-- What is said about an error. -/
def ExpressionError.message : ExpressionError → String
  | .malformed => "the pattern is malformed"
  | .repeatTooLarge => "the repetition number is too large"
  | .countTooLong digits => Number.tooLongMessage digits
  | .behindTooFar => "invalid SRE code"
  | .codeTooLarge => "Python int too large to convert to C int"

/-- A character, with or without a backslash. -/
inductive Token where
  | plain (c : Char)
  | escaped (c : Char)
  deriving DecidableEq

/-- The characters of a token. -/
def Token.chars : Token → List Char
  | .plain c => [c]
  | .escaped c => ['\\', c]

/-- Cut a text into tokens; a backslash at the end is refused. -/
def tokens : List Char → Except ExpressionError (List Token)
  | [] => .ok []
  | ['\\'] => .error .malformed
  | '\\' :: c :: rest => (tokens rest).map (.escaped c :: ·)
  | c :: rest => (tokens rest).map (.plain c :: ·)

/-- The first characters of a class, at most `limit`. -/
def takePlain (accepts : Char → Bool) : Nat → List Token → List Char × List Token
  | limit + 1, .plain c :: rest =>
    if accepts c then
      let (cs, others) := takePlain accepts limit rest
      (c :: cs, others)
    else ([], .plain c :: rest)
  | _, ts => ([], ts)

/-- The text before a terminator, and what follows. -/
def takeUntil (terminator : Char) (ts : List Token) :
    Except ExpressionError (List Char × List Token) :=
  let (inside, rest) := ts.span (· != .plain terminator)
  match rest with
  | [] => .error .malformed
  | _ :: after => if inside.isEmpty then .error .malformed
    else .ok (inside.flatMap Token.chars, after)

end SiteAtlas.Expression
