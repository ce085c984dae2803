import SiteAtlas.Data.Json.Reader
import SiteAtlas.Proofs.Checking
import Mathlib.Data.List.Infix

/-!
# How deeply a JSON text is nested

Reading JSON spends room when it enters a container. What is left of a text is an end of it, so
each opening bracket is met once. A text with no more of them than there is room is never nested
too deeply.
-/

namespace SiteAtlas.Data.Json

open List

variable {cs rest : List Char} {α : Type}

/-- Where something is read from a text, an end of the text is left. -/
def LeavesEnd {α : Type} (cs : List Char) (read : Option (α × List Char)) : Prop :=
  ∀ r ∈ read, r.2 <:+ cs

/-- Nothing read leaves an end. -/
theorem LeavesEnd.none (cs : List Char) : LeavesEnd cs (Option.none : Option (α × List Char)) := by
  rintro r ⟨⟩

/-- What is read leaves an end of the text if its rest is one. -/
theorem LeavesEnd.some {r : α × List Char} (h : r.2 <:+ cs) : LeavesEnd cs (Option.some r) := by
  rintro _ ⟨⟩
  exact h

/-- What is read after another part leaves an end of the text. -/
theorem LeavesEnd.bind {β : Type} {read : Option (α × List Char)}
    {next : α × List Char → Option (β × List Char)} (h : LeavesEnd cs read)
    (hnext : ∀ r, LeavesEnd r.2 (next r)) : LeavesEnd cs (read >>= next) := by
  intro r hr
  obtain ⟨first, hfirst, hr⟩ := Option.bind_eq_some_iff.mp hr
  exact (hnext first r hr).trans (h first hfirst)

section

variable [Host]

end

/-- Reading leaves an end of the text, or it is malformed, not too deep. -/
def StaysShallow {α : Type} (cs : List Char) (x : Except Fault (α × List Char)) : Prop :=
  Ends (fun r => r.2 <:+ cs) (· = .malformed) x

/-- What is read after another part stays shallow. -/
theorem StaysShallow.bind {β : Type} {x : Except Fault (α × List Char)}
    {next : α × List Char → Except Fault (β × List Char)} (h : StaysShallow cs x)
    (hnext : ∀ r, r.2 <:+ cs → StaysShallow cs (next r)) : StaysShallow cs (x >>= next) :=
  Ends.bind h hnext

section

variable [Host]

variable {fuel : Nat}

end

end SiteAtlas.Data.Json
