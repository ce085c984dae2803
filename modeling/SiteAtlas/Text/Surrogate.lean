import SiteAtlas.Host

/-!
# Surrogates in texts

A character stands for itself or for a surrogate. In a file name, the surrogates from `dc80` to
`dcff` stand for the bytes from `80` to `ff`; a name with any other cannot be looked up.
-/

namespace SiteAtlas.Text

variable [Host]

/-- Whether a character stands for a surrogate. -/
def isSurrogate (c : Char) : Bool :=
  (Host.surrogate? c).isSome

/-- The code point that a character stands for. -/
def codeOf (c : Char) : Nat :=
  match Host.surrogate? c with
  | some i => 0xd800 + i
  | none => c.toNat

/-- The character that stands for a code point. -/
def charOf (code : Nat) : Char :=
  if h : 0xd800 ≤ code ∧ code < 0xd800 + 2048 then
    Host.surrogate ⟨code - 0xd800, Nat.sub_lt_left_of_lt_add h.1 h.2⟩
  else Char.ofNat code

/-- Whether a character can occur in the name of a file. -/
def isNameChar (c : Char) : Bool :=
  match Host.surrogate? c with
  | some i => 0x480 ≤ i.val && i.val < 0x500
  | none => true

/-- The number of bytes of a text in the name of a file. -/
def byteSize (cs : List Char) : Nat :=
  cs.foldr (fun c size => (if isSurrogate c then 1 else c.utf8Size) + size) 0

end SiteAtlas.Text
