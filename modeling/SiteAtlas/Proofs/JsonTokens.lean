import Mathlib.Data.List.Basic
import SiteAtlas.Data.Json.Reader
import Mathlib.Algebra.Group.Nat.Defs

/-!
# The strings and numbers of JSON

A string is a row of characters, each as it is, with a letter after a backslash or with its code,
two of which may be halves of one character. A number is a sign, digits, a fraction and an
exponent. Both types hold well-formed texts only, which are read as what they stand for.
-/

namespace SiteAtlas.Data.Json

open List SiteAtlas.Number

variable {c : Char} {rest : List Char}

variable (n : NumberText)

/-- A character of a string as it is written. -/
inductive CharText where
  | plain (c : Char) (h : c ≠ '"' ∧ c ≠ '\\' ∧ 0x20 ≤ c.toNat)
  /-- A letter after a backslash. -/
  | escaped (letter c : Char) (h : escapedChar? letter = some c)
  /-- The four digits of a code. -/
  | code (a b c d : Char) (n : Nat) (h : hex4? a b c d = some n)

/-- A character as it is written. -/
def CharText.text : CharText → List Char
  | .plain c _ => [c]
  | .escaped letter _ _ => ['\\', letter]
  | .code a b c d _ _ => ['\\', 'u', a, b, c, d]

/-- The character that is meant. -/
def CharText.char [Host] : CharText → Char
  | .plain c _ => c
  | .escaped _ c _ => c
  | .code _ _ _ _ n _ => Text.charOf n

/-- The characters meant, halves joined. -/
def charsOf [Host] : List CharText → List Char
  | [] => []
  | .code _ _ _ _ high _ :: .code e f g h low hlow :: rest =>
    if isHighHalf high && isLowHalf low then joinHalves high low :: charsOf rest
    else Text.charOf high :: charsOf (.code e f g h low hlow :: rest)
  | first :: rest => first.char :: charsOf rest

/-- The text of a string with its quotes. -/
def quoted (chars : List CharText) : List Char :=
  '"' :: (chars.flatMap CharText.text ++ ['"'])

/-- What is read of a string with one more character in front. -/
def withChar (c : Char) (read : Option (List Char × List Char)) : Option (List Char × List Char) :=
  read.map (Prod.map (c :: ·) id)

-- The cases of the reader overlap; its equations serve all lemmas about the forms of a character.
attribute [local simp] readString

/-- A code stands for a character if it is not joined. -/
theorem readString_code [Host] {a b d : Char} {n : Nat} (hread : hex4? a b c d = some n)
    (hrest : ∀ e f g h r low, rest = '\\' :: 'u' :: e :: f :: g :: h :: r →
      hex4? e f g h = some low → (isHighHalf n && isLowHalf low) = false) :
    readString ('\\' :: 'u' :: a :: b :: c :: d :: rest) =
      withChar (Text.charOf n) (readString rest) := by
  by_cases hcode : ∃ e f g h r, rest = '\\' :: 'u' :: e :: f :: g :: h :: r
  · obtain ⟨e, f, g, h, r, rfl⟩ := hcode
    rw [readString.eq_3, hread]
    cases hlow : hex4? e f g h with
    | none => rfl
    | some low =>
      simp only [hrest e f g h r low rfl hlow]
      rfl
  · rw [readString.eq_4, hread]
    · rfl
    · intro e f g h r hr
      exact hcode ⟨e, f, g, h, r, hr⟩

/-- Two halves stand for the character that they make up. -/
theorem readString_halves [Host] {a b d e f g h : Char} {high low : Nat}
    (hhigh : hex4? a b c d = some high) (hlow : hex4? e f g h = some low)
    (hhalves : (isHighHalf high && isLowHalf low) = true) (rest : List Char) :
    readString ('\\' :: 'u' :: a :: b :: c :: d :: '\\' :: 'u' :: e :: f :: g :: h :: rest) =
      withChar (joinHalves high low) (readString rest) := by
  rw [readString.eq_3, hhigh, hlow]
  simp only [hhalves]
  rfl

/-- A letter after a backslash is no code. -/
theorem ne_of_escapedChar? {letter : Char} (h : escapedChar? letter = some c) : letter ≠ 'u' := by
  rintro rfl
  cases h

/-- A letter after a backslash is read as what it stands for. -/
theorem readString_escape [Host] {letter : Char} (h : escapedChar? letter = some c)
    (rest : List Char) : readString ('\\' :: letter :: rest) = withChar c (readString rest) := by
  have hletter := ne_of_escapedChar? h
  rw [readString.eq_5, h]
  · rfl
  · intro _ _ _ _ _ _ _ _ _ hu
    exact absurd hu hletter
  · intro _ _ _ _ _ hu
    exact absurd hu hletter

/-- A character that needs no escape is read as it is. -/
theorem readString_plain [Host] (c : Char) (hquote : c ≠ '"') (hslash : c ≠ '\\')
    (h : 0x20 ≤ c.toNat)
    (rest : List Char) : readString (c :: rest) = withChar c (readString rest) := by
  rw [readString.eq_6]
  · rw [if_neg (Nat.not_lt.mpr h)]
    rfl
  · exact hquote
  all_goals
    intros
    simp_all

/-- A code in the text is a written one. -/
theorem exists_code_of_text_eq {chars : List CharText} {r : List Char} {e f g h : Char}
    (heq : chars.flatMap CharText.text ++ '"' :: rest = '\\' :: 'u' :: e :: f :: g :: h :: r) :
    ∃ n hn more, chars = .code e f g h n hn :: more := by
  cases chars with
  | nil => cases heq
  | cons first more =>
    cases first with
    | plain c hc => exact absurd (List.cons.inj heq).1 hc.2.1
    | escaped letter c hc =>
      exact absurd (List.cons.inj (List.cons.inj heq).2).1 (ne_of_escapedChar? hc)
    | code a b c d n hn =>
      cases heq
      exact ⟨n, hn, more, rfl⟩

/-- A string is read up to its closing quote, whatever follows. -/
theorem readString_text [Host] (chars : List CharText) (rest : List Char) :
    readString (chars.flatMap CharText.text ++ '"' :: rest) = some (charsOf chars, rest) := by
  fun_induction charsOf chars with
  | case1 => rfl
  | case2 a b c d high hhigh e f g h low hlow more hhalves ih =>
    have hread := readString_halves hhigh hlow hhalves (more.flatMap CharText.text ++ '"' :: rest)
    simp only [hhalves, if_true]
    exact hread.trans (congrArg (withChar _) ih)
  | case3 a b c d high hhigh e f g h low hlow more hhalves ih =>
    simp only [Bool.eq_false_iff.mpr hhalves, Bool.false_eq_true, if_false]
    rw [flatMap_cons, append_assoc]
    refine (readString_code hhigh ?_).trans (congrArg (withChar _) ih)
    intro e' f' g' h' r low' heq hlow'
    obtain ⟨n, hn, others, hsame⟩ := exists_code_of_text_eq heq
    cases hsame
    obtain rfl := Option.some.inj (hlow.symm.trans hlow')
    exact Bool.eq_false_iff.mpr hhalves
  | case4 first more hfirst ih =>
    rw [flatMap_cons, append_assoc]
    cases first with
    | plain c hc =>
      exact (readString_plain c hc.1 hc.2.1 hc.2.2 _).trans (congrArg (withChar c) ih)
    | escaped letter c hc => exact (readString_escape hc _).trans (congrArg (withChar c) ih)
    | code a b c d n hn =>
      refine (readString_code hn ?_).trans (congrArg (withChar _) ih)
      intro e f g h r low heq _
      obtain ⟨m, hm, others, rfl⟩ := exists_code_of_text_eq heq
      exact (hfirst a b c d n hn e f g h m hm others rfl rfl).elim

/-- Digits, at least one. -/
structure Digits where
  chars : List Char
  ne_nil : chars ≠ []
  isDigit_of_mem : ∀ c ∈ chars, c.isDigit = true

/-- The number that digits stand for. -/
def digitsValue (chars : List Char) : Nat :=
  ofDigits (chars.map fun c => c.toNat - 48)

/-- Digits are read from the first one on. -/
theorem digitsValue_eq_ofDigitChars (chars : List Char) :
    digitsValue chars = Nat.ofDigitChars 10 chars 0 := by
  rw [digitsValue, ofDigits, foldl_map]
  rfl

/-- Decimal digits give the number. -/
theorem digitsValue_toDigits (n : Nat) : digitsValue (Nat.toDigits 10 n) = n := by
  rw [digitsValue_eq_ofDigitChars, Nat.ofDigitChars_ten_toDigits]

/-- More digits at the end shift the number to the left. -/
theorem digitsValue_append (front back : List Char) :
    digitsValue (front ++ back) = digitsValue front * 10 ^ back.length + digitsValue back := by
  simp only [digitsValue_eq_ofDigitChars]
  rw [Nat.ofDigitChars_append, Nat.ofDigitChars_eq_ofDigitChars_zero, Nat.mul_comm]

/-- Digits of a number are digits. -/
theorem isDigit_of_mem_digits {n : Nat} (h : c ∈ Nat.toDigits 10 n) : c.isDigit :=
  Nat.isDigit_of_mem_toDigits (by decide) (by decide) h

/-- A digit is none of the other characters. -/
theorem ne_of_isDigit {d : Char} (hd : d.isDigit = true) (hc : c.isDigit = false) : d ≠ c := by
  intro h
  rw [h, hc] at hd
  cases hd

/-- Digits are taken up to the rest. -/
theorem takeDigits_append {digits : List Char} (h : ∀ c ∈ digits, c.isDigit = true)
    (hrest : ∀ c ∈ rest.head?, c.isDigit = false) :
    takeDigits (digits ++ rest) = (digits, rest) := by
  have hend : rest.takeWhile Char.isDigit = [] ∧ rest.dropWhile Char.isDigit = rest := by
    cases rest with
    | nil => exact ⟨rfl, rfl⟩
    | cons c rest => simp [hrest c rfl]
  rw [takeDigits, takeWhile_append_of_pos h, dropWhile_append_of_pos h, hend.1, hend.2, append_nil]

/-- A number but zero begins with a digit but zero. -/
theorem head_toDigits_ne_zero (n : Nat) (h : n ≠ 0) : (Nat.toDigits 10 n).head? ≠ some '0' := by
  induction n using Nat.strongRecOn with
  | _ n ih =>
    by_cases hsmall : n < 10
    · have hdigit : ∀ d < 10, d ≠ 0 → Nat.digitChar d ≠ '0' := by decide
      rw [Nat.toDigits_of_lt_base hsmall]
      exact fun hhead => hdigit n hsmall h (Option.some.inj hhead)
    · rw [Nat.toDigits_of_base_le (by decide) (Nat.not_lt.mp hsmall),
        head?_append_of_ne_nil _ Nat.toDigits_ne_nil]
      exact ih (n / 10) (by omega) (by omega)

/-- A whole number is read back. -/
theorem readWhole_toDigits (n : Nat) (h : ∀ c ∈ rest.head?, c.isDigit = false) :
    readWhole (Nat.toDigits 10 n ++ rest) = some (Nat.toDigits 10 n, rest) := by
  by_cases hzero : n = 0
  · subst hzero
    rfl
  · have hhead := head_toDigits_ne_zero n hzero
    have hdigits : ∀ c ∈ Nat.toDigits 10 n, c.isDigit := fun c hc => isDigit_of_mem_digits hc
    have htake := takeDigits_append hdigits h
    obtain ⟨c, more, hmore⟩ := exists_cons_of_ne_nil (@Nat.toDigits_ne_nil n 10)
    rw [hmore] at htake hhead hdigits ⊢
    rw [cons_append, readWhole, if_pos (hdigits c (.head _)), ← cons_append, htake]
    intro hc
    exact hhead (congrArg some hc)

/-- An exponent as it is written. -/
structure ExponentText where
  mark : Char
  mark_eq : (mark == 'e' || mark == 'E') = true
  /-- Whether there is a sign, and whether it is a minus sign. -/
  sign : Option Bool
  digits : Digits

/-- An exponent as it is written. -/
def ExponentText.text (x : ExponentText) : List Char :=
  x.mark :: ((x.sign.map fun negative => if negative then '-' else '+').toList ++ x.digits.chars)

/-- The number that an exponent stands for. -/
def ExponentText.value (x : ExponentText) : Int :=
  if x.sign = some true then -(digitsValue x.digits.chars : Int) else digitsValue x.digits.chars

/-- A written number, with no zero in front. -/
structure NumberText where
  negative : Bool
  whole : Nat
  fraction : Option Digits
  exponent : Option ExponentText

namespace NumberText

/-- The digits after the point. -/
def decimals (n : NumberText) : List Char :=
  (n.fraction.map Digits.chars).getD []

/-- The point with the digits after it, if there is one. -/
def fractionText (n : NumberText) : List Char :=
  (n.fraction.map fun digits => '.' :: digits.chars).getD []

/-- The exponent, if there is one. -/
def exponentText (n : NumberText) : List Char :=
  (n.exponent.map ExponentText.text).getD []

/-- A number as it is written. -/
def text (n : NumberText) : List Char :=
  (if n.negative then ['-'] else []) ++
    (Nat.toDigits 10 n.whole ++ (n.fractionText ++ n.exponentText))

/-- Whether a number has neither a fraction nor an exponent. -/
def isWhole (n : NumberText) : Bool :=
  n.fraction.isNone && n.exponent.isNone

/-- The number of a text: whole, or the nearest floating one. -/
def value (n : NumberText) : Value :=
  if n.isWhole then .int (if n.negative then -(n.whole : Int) else n.whole)
  else .float (.ofDecimal n.negative (n.whole * 10 ^ n.decimals.length + digitsValue n.decimals)
    ((n.exponent.map ExponentText.value).getD 0 - n.decimals.length))

end NumberText

/-- The characters that can stand after a value. -/
def separators : List Char :=
  [' ', '\t', '\n', '\r', ',', ']', '\x7d']

/-- Nothing follows, or what can stand after a value. -/
def Separated (rest : List Char) : Prop :=
  ∀ c ∈ rest.head?, c ∈ separators

/-- What follows a value cannot go on with a number. -/
theorem Separated.not_number (h : Separated rest) :
    ∀ c ∈ rest.head?, c.isDigit = false ∧ c ≠ '.' ∧ (c == 'e' || c == 'E') = false := by
  intro c hc
  have hmem := h c hc
  simp only [separators, mem_cons, not_mem_nil, or_false] at hmem
  rcases hmem with rfl | rfl | rfl | rfl | rfl | rfl | rfl <;> decide

/-- The digits after a point are read, if there is one. -/
theorem readFraction_text (hrest : ∀ c ∈ rest.head?, c.isDigit = false ∧ c ≠ '.') :
    readFraction (n.fractionText ++ rest) = n.fraction.map fun digits => (digits.chars, rest) := by
  unfold NumberText.fractionText
  cases n.fraction with
  | none =>
    cases rest with
    | nil => rfl
    | cons c rest =>
      change readFraction (c :: rest) = none
      rw [readFraction]
      exact fun _ heq => (hrest c rfl).2 (List.cons.inj heq).1
  | some digits =>
    have htake := takeDigits_append digits.isDigit_of_mem fun c hc => (hrest c hc).1
    change readFraction ('.' :: (digits.chars ++ rest)) = some (digits.chars, rest)
    rw [readFraction, htake, if_neg]
    simpa using digits.ne_nil

/-- A signed number is read back. -/
theorem readSigned_text (sign : Option Bool) (digits : Digits)
    (hrest : ∀ c ∈ rest.head?, c.isDigit = false) :
    readSigned ((sign.map fun negative => if negative then '-' else '+').toList ++
      (digits.chars ++ rest)) = some (if sign = some true then -(digitsValue digits.chars : Int)
        else digitsValue digits.chars, rest) := by
  have htake := takeDigits_append digits.isDigit_of_mem hrest
  have hsome : digits.chars.isEmpty = false := by simpa using digits.ne_nil
  obtain ⟨d, more, hmore⟩ := exists_cons_of_ne_nil digits.ne_nil
  have hdigit := digits.isDigit_of_mem d (hmore ▸ mem_cons_self)
  unfold readSigned
  cases sign with
  | some negative => cases negative <;> simp [htake, hsome, digitsValue]
  | none =>
    have hminus := ne_of_isDigit hdigit (c := '-') rfl
    have hplus := ne_of_isDigit hdigit (c := '+') rfl
    rw [hmore, cons_append] at htake
    simp [hmore, htake, digitsValue, hminus, hplus]

/-- An exponent is read back. -/
theorem readExponent_text (h : Separated rest) :
    readExponent (n.exponentText ++ rest) = n.exponent.map fun x => (x.value, rest) := by
  unfold NumberText.exponentText
  cases n.exponent with
  | none =>
    cases rest with
    | nil => rfl
    | cons c rest =>
      change readExponent (c :: rest) = none
      rw [readExponent, (h.not_number c rfl).2.2]
      rfl
  | some x =>
    have hsigned := readSigned_text x.sign x.digits fun c hc => (h.not_number c hc).1
    rw [← append_assoc] at hsigned
    change readExponent (x.mark :: (_ ++ rest)) = some (x.value, rest)
    rw [readExponent, x.mark_eq, if_pos rfl, hsigned, ExponentText.value]

/-- An exponent cannot go on with the digits before it. -/
theorem head_exponentText (h : Separated rest) :
    ∀ c ∈ (n.exponentText ++ rest).head?, c.isDigit = false ∧ c ≠ '.' := by
  unfold NumberText.exponentText
  intro c hc
  cases hexponent : n.exponent with
  | none =>
    rw [hexponent] at hc
    exact ⟨(h.not_number c hc).1, (h.not_number c hc).2.1⟩
  | some x =>
    rw [hexponent] at hc
    obtain rfl := Option.some.inj hc
    have hmark := x.mark_eq
    simp only [Bool.or_eq_true, beq_iff_eq] at hmark
    rcases hmark with hmark | hmark <;> rw [hmark] <;> decide

/-- A fraction cannot go on with the digits before it. -/
theorem head_fractionText (h : ∀ c ∈ rest.head?, c.isDigit = false) :
    ∀ c ∈ (n.fractionText ++ rest).head?, c.isDigit = false := by
  unfold NumberText.fractionText
  cases n.fraction with
  | none => exact h
  | some digits =>
    intro c hc
    obtain rfl := Option.some.inj hc
    rfl

/-- A number is read to its end, unless it has too many digits. -/
theorem readNumber_text (h : Separated rest) : readNumber (n.text ++ rest) =
      if n.isWhole && digitLimit < (Nat.toDigits 10 n.whole).length then none
      else some (n.value, rest) := by
  have hwhole := readWhole_toDigits n.whole
    (head_fractionText n fun c hc => (head_exponentText n h c hc).1)
  have hfraction := readFraction_text n (head_exponentText n h)
  have hexponent := readExponent_text n h
  -- Where a part is left out, reading goes on at the same place.
  have hafter : ((n.fraction.map fun digits => (digits.chars, n.exponentText ++ rest)).map
      (·.2)).getD (n.fractionText ++ (n.exponentText ++ rest)) = n.exponentText ++ rest := by
    cases hnone : n.fraction <;> simp [NumberText.fractionText, hnone]
  have hend : ((n.exponent.map fun x => (x.value, rest)).map (·.2)).getD
      (n.exponentText ++ rest) = rest := by
    cases hnone : n.exponent <;> simp [NumberText.exponentText, hnone]
  have hdigits : ofDigits ((Nat.toDigits 10 n.whole).map fun c => c.toNat - 48) = n.whole :=
    digitsValue_toDigits n.whole
  have hdecimals (decimals : List Char) :
      ofDigits ((Nat.toDigits 10 n.whole ++ decimals).map fun c => c.toNat - 48) =
        n.whole * 10 ^ decimals.length + digitsValue decimals := by
    rw [← digitsValue, digitsValue_append, digitsValue_toDigits]
  have hparts : n.text ++ rest = (if n.negative then ['-'] else []) ++
      (Nat.toDigits 10 n.whole ++ (n.fractionText ++ (n.exponentText ++ rest))) := by
    simp [NumberText.text]
  unfold readNumber
  rw [hparts]
  cases hnegative : n.negative with
  | true =>
    simp only [if_true, cons_append, nil_append, hwhole, hfraction, hafter, hexponent,
      hend, hdigits, hdecimals, Option.bind_eq_bind, Option.bind_some]
    cases hf : n.fraction <;> cases he : n.exponent <;>
      simp [NumberText.isWhole, NumberText.value, NumberText.decimals, hf, he, hnegative]
  | false =>
    obtain ⟨d, more, hmore⟩ := exists_cons_of_ne_nil (@Nat.toDigits_ne_nil n.whole 10)
    have hdigit : d.isDigit = true := isDigit_of_mem_digits (hmore ▸ mem_cons_self)
    simp only [Bool.false_eq_true, if_false, nil_append]
    split
    · next hsign =>
      rw [hmore, cons_append] at hsign
      exact absurd (List.cons.inj hsign).1 (ne_of_isDigit hdigit rfl)
    · simp only [hwhole, hfraction, hafter, hexponent, hend, hdigits, hdecimals,
        Option.bind_eq_bind, Option.bind_some]
      cases hf : n.fraction <;> cases he : n.exponent <;>
        simp [NumberText.isWhole, NumberText.value, NumberText.decimals, hf, he, hnegative]

/-- A number begins with a sign or a digit. -/
theorem NumberText.exists_text_eq :
    ∃ c more, n.text = c :: more ∧ (c = '-' ∨ c.isDigit = true) := by
  obtain ⟨d, more, hmore⟩ := exists_cons_of_ne_nil (@Nat.toDigits_ne_nil n.whole 10)
  rw [NumberText.text, hmore]
  cases n.negative with
  | true => exact ⟨_, _, rfl, .inl rfl⟩
  | false => exact ⟨_, _, rfl, .inr (isDigit_of_mem_digits (hmore ▸ mem_cons_self))⟩

/-- No word begins with a digit, or with a sign and a digit. -/
theorem readScalar_number (rest : List Char) :
    readScalar (n.text ++ rest) = readNumber (n.text ++ rest) := by
  obtain ⟨d, more, hmore⟩ := exists_cons_of_ne_nil (@Nat.toDigits_ne_nil n.whole 10)
  have hdigit : d.isDigit = true := isDigit_of_mem_digits (hmore ▸ mem_cons_self)
  have hne : ∀ {c : Char}, c.isDigit = false → c ≠ d := fun hc => (ne_of_isDigit hdigit hc).symm
  rw [readScalar, Option.or_eq_right_of_none]
  rw [findSome?_eq_none_iff, NumberText.text, hmore]
  cases n.negative <;> simp [wordValues, after?, hne]

end SiteAtlas.Data.Json
