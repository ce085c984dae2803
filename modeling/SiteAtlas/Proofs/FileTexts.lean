import SiteAtlas.Text.Utf8
import Mathlib.Data.List.Basic

/-!
# Texts that are written to files

The bytes of a text are read as the text again, as every character has one accepted form. Line
breaks come back as they were unless carriage returns are among them.
-/

namespace SiteAtlas.Text

open List

/-- A number of so many bytes is taken for a character. -/
theorem charAbove?_toNat (c : Char) (least : Nat) (h : least ≤ c.toNat) :
    charAbove? least c.toNat = some c := by
  have hvalid : c.toNat < 0xd800 ∨ 0xdfff < c.toNat ∧ c.toNat < 0x110000 := c.valid
  rw [charAbove?, if_pos, Char.ofNat_toNat]
  simp only [Bool.and_eq_true, decide_eq_true_eq, Bool.not_eq_true', Bool.and_eq_false_iff,
    decide_eq_false_iff_not]
  omega

/-- A byte holds a number below 256. -/
theorem toNat_byte (n : Nat) (h : n < 256) : (UInt8.ofNat n).toNat = n := by
  rw [UInt8.toNat_ofNat']
  omega

/-- A continuation byte holds six bits. -/
theorem continuation?_byte (n : Nat) (h : n < 64) :
    continuation? (UInt8.ofNat (n + 128)) = some n := by
  rw [continuation?, toNat_byte _ (by omega), if_pos (by omega)]
  congr 1
  omega

/-- The bytes of a character are read as the character. -/
theorem decodeUtf8_append (c : Char) (rest : List UInt8) :
    decodeUtf8 (String.utf8EncodeChar c ++ rest) = (decodeUtf8 rest).map (c :: ·) := by
  have hvalid : c.toNat < 0xd800 ∨ 0xdfff < c.toNat ∧ c.toNat < 0x110000 := c.valid
  have hval : c.val.toNat = c.toNat := rfl
  unfold String.utf8EncodeChar
  dsimp only
  rw [hval]
  -- One case for each number of bytes; the first byte tells how many follow.
  split
  · rw [singleton_append, decodeUtf8.eq_def]
    dsimp only
    rw [toNat_byte _ (by omega), if_pos (by omega), Char.ofNat_toNat]
  · split
    · rw [cons_append, singleton_append, decodeUtf8.eq_def]
      dsimp only
      rw [toNat_byte _ (by omega), if_neg (by omega), if_neg (by omega), if_pos (by omega),
        continuation?_byte _ (by omega), Option.bind_eq_bind, Option.bind_some]
      have hnumber : (c.toNat / 64 % 32 + 192) % 32 * 64 + c.toNat % 64 = c.toNat := by omega
      rw [hnumber, charAbove?_toNat c _ (by omega), Option.map_eq_bind]
      rfl
    · split
      · rw [cons_append, cons_append, singleton_append, decodeUtf8.eq_def]
        dsimp only
        rw [toNat_byte _ (by omega), if_neg (by omega), if_neg (by omega), if_neg (by omega),
          if_pos (by omega), continuation?_byte _ (by omega), continuation?_byte _ (by omega)]
        have hnumber : ((c.toNat / 4096 % 16 + 224) % 16 * 64 + c.toNat / 64 % 64) * 64 +
            c.toNat % 64 = c.toNat := by omega
        simp only [Option.bind_eq_bind, Option.bind_some]
        rw [hnumber, charAbove?_toNat c _ (by omega), Option.map_eq_bind]
        rfl
      · rw [cons_append, cons_append, cons_append, singleton_append,
          decodeUtf8.eq_def]
        dsimp only
        rw [toNat_byte _ (by omega), if_neg (by omega), if_neg (by omega), if_neg (by omega),
          if_neg (by omega), if_pos (by omega), continuation?_byte _ (by omega),
          continuation?_byte _ (by omega), continuation?_byte _ (by omega)]
        have hnumber : (((c.toNat / 262144 % 8 + 240) % 8 * 64 + c.toNat / 4096 % 64) * 64 +
            c.toNat / 64 % 64) * 64 + c.toNat % 64 = c.toNat := by omega
        simp only [Option.bind_eq_bind, Option.bind_some]
        rw [hnumber, charAbove?_toNat c _ (by omega), Option.map_eq_bind]
        rfl

/-- The bytes of characters are read as the characters. -/
theorem decodeUtf8_flatMap (cs : List Char) :
    decodeUtf8 (cs.flatMap String.utf8EncodeChar) = some cs := by
  induction cs with
  | nil => rfl
  | cons c cs ih => rw [flatMap_cons, decodeUtf8_append, ih, Option.map_some]

/-- Walking through bytes gives what is still ahead. -/
theorem toList_loop (bytes : ByteArray) (place : Nat) (passed : List UInt8) :
    ByteArray.toList.loop bytes place passed = passed.reverse ++ bytes.data.toList.drop place := by
  induction hleft : bytes.size - place generalizing place passed with
  | zero =>
    rw [ByteArray.toList.loop, if_neg (by omega), drop_of_length_le, append_nil]
    have : bytes.data.toList.length = bytes.size := rfl
    omega
  | succ left ih =>
    have hbound : place < bytes.data.toList.length := by
      have : bytes.data.toList.length = bytes.size := rfl
      omega
    rw [ByteArray.toList.loop, if_pos (by omega), ih _ _ (by omega), reverse_cons,
      append_assoc, singleton_append, drop_eq_getElem_cons hbound]
    congr 2
    exact getElem!_pos bytes.data place hbound

/-- The bytes of a text are those of its characters. -/
theorem toBytes_eq_flatMap (s : String) : toBytes s = s.toList.flatMap String.utf8EncodeChar := by
  rw [toBytes, ByteArray.toList, toList_loop, String.toUTF8_eq_toByteArray,
    ← String.utf8Encode_toList, List.utf8Encode, data_toByteArray]
  rfl

/-- Texts without carriage returns keep their line breaks. -/
theorem unifyNewlines_of_not_mem {cs : List Char} (h : '\r' ∉ cs) : unifyNewlines cs = cs := by
  fun_induction unifyNewlines cs with
  | case1 => rfl
  | case2 rest ih => simp at h
  | case3 c rest _ ih =>
    rw [mem_cons, not_or] at h
    rw [if_neg (Ne.symm h.1), ih h.2]

/-- A text without carriage returns is read back from its bytes. -/
theorem ofBytes?_toBytes {s : String} (h : '\r' ∉ s.toList) :
    ofBytes? (toBytes s) = some s.toList := by
  rw [ofBytes?, toBytes_eq_flatMap, decodeUtf8_flatMap, Option.map_some, unifyNewlines_of_not_mem h]

end SiteAtlas.Text
