import SiteAtlas.Text.Emoji

/-!
# Hosts

A text may hold surrogates, halves of characters: a file name that is no UTF-8 has one for every
byte out of place, and a JSON text may spell them. `Char` has none, so the host tells which
characters stand for them. Any beyond ASCII will do that an input does not use for themselves.

The host also tells how much room its stack has for what is nested, which differs from place to
place by the calls under way. And it names characters, for patterns, and emoji, for the console.
-/

namespace SiteAtlas

/-- What the program runs on. -/
class Host where
  /-- The characters that stand for the surrogates. -/
  surrogate : Fin 2048 → Char
  /-- The surrogate that a character stands for. -/
  surrogate? : Char → Option (Fin 2048)
  surrogate?_eq_some_iff {c : Char} {i : Fin 2048} : surrogate? c = some i ↔ surrogate i = c
  surrogate?_ascii {c : Char} : c.toNat < 128 → surrogate? c = none
  /-- The code point of the character with a name. -/
  charNamed? : List Char → Option Nat
  /-- The emoji with a name. -/
  emojiNamed? : List Char → Option (List Char)
  /-- How many containers can be nested in a manifest. -/
  manifestRoom : Nat
  /-- How many containers can be nested in a configuration. -/
  configRoom : Nat
  /-- How many layouts can be nested in an exported catalog. -/
  layoutRoom : Nat
  /-- How many directories or groups can surely be nested. -/
  nestingRoom : Nat
  /-- Whether the stack gives out while the project at a place is scanned, other than in reading
  JSON, given the files and the directories that there are. -/
  exhausted : (List String → Option (List UInt8)) → (List String → Bool) → List String → Bool
  /-- The stack gives out only over nested directories or groups. -/
  nested_of_exhausted {files : List String → Option (List UInt8)} {directories : List String → Bool}
    {root : List String} : exhausted files directories root = true →
      (∃ names, directories (root ++ names) = true ∧ nestingRoom < names.length) ∨
        ∃ names bytes, files (root ++ names) = some bytes ∧ nestingRoom < bytes.count 40

namespace Host

/-- Surrogates are the last characters, names the common ones, and the stack has a thousand levels.
-/
@[reducible] def usual : Host where
  surrogate i := Char.ofNat (0x10f800 + i)
  surrogate? c := if h : 0x10f800 ≤ c.toNat ∧ c.toNat < 0x10f800 + 2048 then
    some ⟨c.toNat - 0x10f800, Nat.sub_lt_left_of_lt_add h.1 h.2⟩ else none
  surrogate?_eq_some_iff {c i} := by
    have hcode : (Char.ofNat (0x10f800 + i)).toNat = 0x10f800 + i := by
      rw [Char.ofNat, dif_pos (.inr ⟨by omega, by omega⟩)]
      rfl
    constructor
    · intro h
      split at h
      · rename_i hrange
        rw [← Option.some.inj h, Nat.add_sub_cancel' hrange.1, Char.ofNat_toNat]
      · cases h
    · rintro rfl
      rw [dif_pos (by omega), Option.some.injEq, Fin.mk.injEq]
      omega
  surrogate?_ascii {c} h := dif_neg (by omega)
  charNamed? := Text.charNamed?
  emojiNamed? := Text.emojiNamed?
  manifestRoom := 988
  configRoom := 988
  layoutRoom := 330
  nestingRoom := 100
  exhausted _ _ _ := false
  nested_of_exhausted h := nomatch h

end Host

end SiteAtlas
