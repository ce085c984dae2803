import SiteAtlas.Route.Matcher
import SiteAtlas.Proofs.Checking
import Mathlib.Data.List.Infix
import Mathlib.Algebra.Group.Nat.Defs

/-!
# Why written patterns are refused

A malformed pattern stands for nothing, and reading goes on. Other refusals are not passed over:
too many turns of a repetition, a look behind that goes back too far, and eight digits that are no
machine integer. They need a brace, an angle bracket, or a backslash and the letter U, so a matcher
without these is read or is malformed.
-/

namespace SiteAtlas

open List

variable {ts rest : List Token}

variable (g : Groups) (cs : List Char) (c : Char)

/-- What stands between matches was there. -/
theorem Pattern.mem_of_plain_mem_piecesFrom (p : Pattern) (skip : Nat) (before : List Char)
    (offset : Nat) (cs : List Char) (c : Char) (h : .plain c ∈ p.piecesFrom skip before offset cs) :
    c ∈ cs := by
  fun_induction piecesFrom p skip before offset cs with
  | case1 => cases h
  | case2 skip before offset other rest ih => exact mem_cons_of_mem other (ih h)
  | case3 before offset other rest found _ ih =>
    rcases mem_cons.mp h with heq | hrest
    · cases heq
    · exact mem_cons_of_mem other (ih hrest)
  | case4 before offset other rest _ ih =>
    rcases mem_cons.mp h with heq | hrest
    · cases heq
      exact mem_cons_self
    · exact mem_cons_of_mem other (ih hrest)

namespace Route

end Route

namespace Expression

/-- Reading leaves an end of the tokens, or it is malformed. -/
def LeavesTokens {α : Type} (ts : List Token) (x : Except ExpressionError (α × List Token)) :
    Prop :=
  Ends (fun r => r.2 <:+ ts) (· = .malformed) x

/-- Reading that goes on after it has left an end of the tokens. -/
theorem LeavesTokens.bind {α β : Type} {after : β → Prop}
    {x : Except ExpressionError (α × List Token)} {next : α × List Token → Except ExpressionError β}
    (h : LeavesTokens ts x) (hnext : ∀ r, r.2 <:+ ts → Ends after (· = .malformed) (next r)) :
    Ends after (· = .malformed) (x >>= next) :=
  Ends.bind h hnext

variable {fuel : Nat}

end Expression

end SiteAtlas
