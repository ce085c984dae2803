import Mathlib.Data.List.TakeWhile
import SiteAtlas.Proofs.FileTexts

/-!
# Texts with surrogates

Characters and code points belong together, whatever characters a host has for the surrogates. A
text has bytes exactly if it holds no surrogate, and is read from them again.
-/

namespace SiteAtlas.Text

open List

variable {c : Char} {cs : List Char}

/-- A surrogate has its own code point. -/
theorem codeOf_of_eq_some [Host] {i : Fin 2048} (h : Host.surrogate? c = some i) :
    codeOf c = 0xd800 + i := by
  rw [codeOf, h]

/-- A character that stands for no surrogate stands for itself. -/
theorem codeOf_of_eq_none [Host] (h : Host.surrogate? c = none) : codeOf c = c.toNat := by
  rw [codeOf, h]

/-- Code points beyond the basic plane stand for themselves. -/
theorem codeOf_beyond [Host] (h : 0x10000 ≤ codeOf c) : codeOf c = c.toNat := by
  cases hc : Host.surrogate? c with
  | none => exact codeOf_of_eq_none hc
  | some i =>
    rw [codeOf_of_eq_some hc] at h
    omega

/-- A code point leads back to its character. -/
theorem charOf_codeOf [Host] (c : Char) : charOf (codeOf c) = c := by
  cases hc : Host.surrogate? c with
  | none =>
    have hvalid : c.toNat < 0xd800 ∨ 0xdfff < c.toNat ∧ c.toNat < 0x110000 := c.valid
    rw [codeOf_of_eq_none hc, charOf, dif_neg (by omega), Char.ofNat_toNat]
  | some i =>
    rw [codeOf_of_eq_some hc, charOf, dif_pos (by omega)]
    refine (congrArg Host.surrogate (Fin.ext ?_)).trans (Host.surrogate?_eq_some_iff.mp hc)
    exact Nat.add_sub_cancel_left ..

/-- No character of a text is a surrogate. -/
def IsPlain [Host] (cs : List Char) : Prop :=
  ∀ c ∈ cs, isSurrogate c = false

/-- A text without surrogates is written as its bytes. -/
theorem encode_of_isPlain [Host] (h : IsPlain cs) :
    encode cs = .ok (toBytes (String.ofList cs)) := by
  have hnone : cs.dropWhile (!isSurrogate ·) = [] :=
    dropWhile_eq_nil_iff.mpr fun c hc => by rw [h c hc, Bool.not_false]
  rw [encode, hnone]

/-- A text with surrogates cannot be written, for the first of them. -/
theorem encode_of_not_isPlain [Host] (h : ¬ IsPlain cs) : ∃ e, encode cs = .error e := by
  unfold encode
  split
  · next hnone =>
    refine absurd (fun c hc => ?_) h
    simpa using dropWhile_eq_nil_iff.mp hnone c hc
  · exact ⟨_, rfl⟩

/-- A text is written exactly if it holds no surrogate. -/
theorem encode_returns_iff [Host] (cs : List Char) :
    (∃ bytes, encode cs = .ok bytes) ↔ IsPlain cs := by
  constructor
  · rintro ⟨bytes, hbytes⟩
    by_contra h
    obtain ⟨e, he⟩ := encode_of_not_isPlain h
    cases hbytes.symm.trans he
  · exact fun h => ⟨_, encode_of_isPlain h⟩

/-- The bytes of a text that was written are read as this text. -/
theorem decodeUtf8_of_encode [Host] {bytes : List UInt8} (h : encode cs = .ok bytes) :
    decodeUtf8 bytes = some cs := by
  have hplain := (encode_returns_iff cs).mp ⟨bytes, h⟩
  rw [encode_of_isPlain hplain] at h
  rw [← Except.ok.inj h, toBytes_eq_flatMap, String.toList_ofList, decodeUtf8_flatMap]

/-- Sizes of texts add up. -/
theorem byteSize_append [Host] (cs more : List Char) :
    byteSize (cs ++ more) = byteSize cs + byteSize more := by
  induction cs with
  | nil => exact (Nat.zero_add _).symm
  | cons c cs ih => exact (congrArg _ ih).trans (Nat.add_assoc ..).symm

/-- A text is plain if each character is. -/
@[simp] theorem isPlain_cons [Host] : IsPlain (c :: cs) ↔ isSurrogate c = false ∧ IsPlain cs :=
  forall_mem_cons

/-- Joined texts are free of surrogates if both are. -/
@[simp] theorem isPlain_append [Host] {more : List Char} :
    IsPlain (cs ++ more) ↔ IsPlain cs ∧ IsPlain more :=
  forall_mem_append

end SiteAtlas.Text
