import SiteAtlas.Proofs.GapReading

/-!
# Texts that patterns need

Most patterns need some fixed text before a character that their gaps cannot cross. Where it is
missing the pattern cannot be read, whatever follows.
-/

namespace SiteAtlas

open List

variable {s : List Char}

namespace Text

variable {x : Char} {a b u v : List Char}

/-- A text without a character lies in what that character ends. -/
theorem exists_within (hu : x ∉ u) (h : a ++ x :: b = u ++ v) :
    ∃ z, a = u ++ z ∧ v = z ++ x :: b := by
  rcases append_eq_append_iff.mp h with ⟨z, rfl, hz⟩ | ⟨z, rfl, hz⟩
  · cases z with
    | nil => exact ⟨[], by simp, by simpa using hz.symm⟩
    | cons y z =>
      obtain ⟨rfl, -⟩ := List.cons.inj hz
      simp at hu
  · exact ⟨z, rfl, hz⟩

/-- A text is cut at the first character outside a class in one way. -/
theorem eq_of_cut (accepts : Char → Bool) {y : Char} (ha : ∀ z ∈ a, accepts z = true)
    (hu : ∀ z ∈ u, accepts z = true) (hx : accepts x = false) (hy : accepts y = false)
    (h : a ++ x :: b = u ++ y :: v) : a = u ∧ x = y ∧ b = v := by
  have hfree : x ∉ u := fun hmem => Bool.noConfusion (hx.symm.trans (hu x hmem))
  obtain ⟨z, rfl, hz⟩ := exists_within hfree h
  cases z with
  | nil =>
    obtain ⟨rfl, rfl⟩ := List.cons.inj hz
    exact ⟨append_nil u, rfl, rfl⟩
  | cons y z =>
    obtain ⟨rfl, -⟩ := List.cons.inj hz
    have hmem := ha _ (mem_append_right u mem_cons_self)
    exact Bool.noConfusion (hy.symm.trans hmem)

/-- A text is not found where one of its characters is missing. -/
theorem not_infix_of_not_mem (hx : x ∈ s) (ha : x ∉ a) : ¬ s <:+: a :=
  fun h => ha (h.mem hx)

/-- The end of a text is that of its last part, if long enough. -/
theorem not_suffix_append (a : List Char) (hlength : s.length ≤ b.length) (hs : ¬ s <:+ b) :
    ¬ s <:+ a ++ b :=
  fun h => hs (suffix_of_suffix_length_le h (suffix_append a b) hlength)

/-- A text ends with a character and has it nowhere else. -/
def EndsOnlyWith (x : Char) (s : List Char) : Prop :=
  s.dropLast ++ [x] = s ∧ x ∉ s.dropLast

instance (s : List Char) : Decidable (EndsOnlyWith x s) :=
  inferInstanceAs (Decidable (_ ∧ _))

/-- A text that ends with a character is only where that is. -/
theorem not_infix_append_cons (hs : EndsOnlyWith x s) (ha : x ∉ a) (hend : ¬ s.dropLast <:+ a)
    (hb : ¬ s <:+: b) : ¬ s <:+: a ++ x :: b := by
  obtain ⟨hlast, hx⟩ := hs
  generalize s.dropLast = front at hlast hx hend
  subst hlast
  rintro ⟨before, back, h⟩
  rw [append_assoc, append_assoc, singleton_append, ← append_assoc] at h
  obtain ⟨z, hz, hrest⟩ := exists_within ha h
  cases z with
  | nil =>
    rw [append_nil] at hz
    exact hend ⟨before, hz⟩
  | cons y z =>
    obtain ⟨rfl, rfl⟩ := List.cons.inj hrest
    -- The text begins behind the character, as it has it only at its end.
    have hfront : front <:+ before ++ front := suffix_append before front
    have hcut : x :: z <:+ before ++ front := hz ▸ suffix_append a (x :: z)
    have hlength : front.length ≤ z.length := by
      refine Nat.le_of_not_lt fun hlong => hx ?_
      exact (suffix_of_suffix_length_le hcut hfront hlong).mem mem_cons_self
    have hsuffix : front <:+ z :=
      suffix_of_suffix_length_le hfront ((suffix_cons x z).trans hcut) hlength
    obtain ⟨first, rfl⟩ := hsuffix
    exact hb ⟨first, back, by simp⟩

/-- A text is not found again from its second character on. -/
theorem not_infix_tail (hs : EndsOnlyWith x s) (hb : ¬ s <:+: b) : ¬ s <:+: (s ++ b).tail := by
  have hsplit : s ++ b = s.dropLast ++ x :: b := by
    rw [append_cons, hs.1]
  rw [hsplit]
  cases hfront : s.dropLast with
  | nil => exact hb
  | cons y front =>
    refine not_infix_append_cons hs ?_ ?_ hb
    · exact fun hmem => hs.2 (hfront ▸ mem_cons_of_mem y hmem)
    · rw [hfront]
      exact fun h => absurd h.length_le (by simp)

end Text

namespace Pattern

variable {p q : Pattern} {text rest : List Char} {needed : String} {stop : Char}

/-- A pattern reads a fixed text before anything else. -/
def Opens (p : Pattern) (s : String) : Prop :=
  ∀ spelled, p.Spells spelled → s.toList <+: spelled

/-- A text opens with itself. -/
theorem opens_text (s : String) : (Pattern.text s).Opens s := by
  intro spelled h
  obtain rfl := spells_text.mp h
  exact prefix_rfl

/-- A character opens with itself. -/
theorem opens_char {x : Char} {s : String} (hs : s.toList = [x]) : (char x).Opens s := by
  intro spelled h
  exact ⟨[], by rw [spells_char.mp h, hs, append_nil]⟩

/-- A pattern opens as its first part does. -/
theorem Opens.append {s : String} (h : p.Opens s) : (p ++ q).Opens s := by
  rintro spelled ⟨a, b, rfl, ha, -⟩
  exact (h a ha).trans (prefix_append a b)

/-- A pattern is not read where its opening text is not. -/
theorem Opens.failsAt {s : String} (h : p.Opens s) (htext : ¬ s.toList <+: text) :
    p.FailsAt text := by
  refine failsAt_of_spells fun spelled more hspells heq => htext ?_
  rw [heq]
  exact (h spelled hspells).trans (prefix_append spelled more)

/-- Whether a pattern cannot read a character. -/
def avoids (stop : Char) : Pattern → Bool
  | .empty | .anchor _ | .notAhead _ => true
  | .one accepts => !accepts stop
  | .seq first second | .either first second => first.avoids stop && second.avoids stop
  | .loop _ _ _ body | .capture _ body => body.avoids stop
  | .again _ => false

/-- Turns do not read what none of them reads. -/
theorem not_mem_of_repeats {kind : List Char → Prop} (h : ∀ text, kind text → stop ∉ text) {n : Nat}
    (hrepeats : Repeats kind n text) : stop ∉ text := by
  induction n generalizing text with
  | zero =>
    obtain rfl := hrepeats
    exact not_mem_nil
  | succ n ih =>
    obtain ⟨a, b, rfl, ha, hb⟩ := hrepeats
    rw [mem_append, not_or]
    exact ⟨h a ha, ih hb⟩

/-- What a pattern spells has no characters that it cannot read. -/
theorem not_mem_of_spells (h : p.avoids stop = true) (hspells : p.Spells text) : stop ∉ text := by
  induction p generalizing text with
  | empty | anchor | notAhead =>
    obtain rfl := hspells
    exact not_mem_nil
  | one accepts =>
    obtain ⟨x, hx, rfl⟩ := hspells
    rintro hmem
    obtain rfl := mem_singleton.mp hmem
    simp [avoids, hx] at h
  | seq first second ihfirst ihsecond =>
    obtain ⟨a, b, rfl, ha, hb⟩ := hspells
    obtain ⟨hfirst, hsecond⟩ := Bool.and_eq_true_iff.mp h
    rw [mem_append, not_or]
    exact ⟨ihfirst hfirst ha, ihsecond hsecond hb⟩
  | either first second ihfirst ihsecond =>
    obtain ⟨hfirst, hsecond⟩ := Bool.and_eq_true_iff.mp h
    rcases hspells with ha | hb
    · exact ihfirst hfirst ha
    · exact ihsecond hsecond hb
  | loop eagerness least extra body ih =>
    obtain ⟨n, -, hrepeats⟩ := hspells
    exact not_mem_of_repeats (fun _ => ih h) hrepeats
  | capture index body ih => exact ih h hspells
  | again index => cases h

/-- Parts that cannot read a character end before it. -/
theorem failsAt_chain_append {others : List Pattern} {region more : List Char} (stop : Char)
    (ps : List Pattern) (hps : ps.all (avoids stop) = true)
    (h : ∀ z, z <:+ region → (chain others).FailsAt (z ++ stop :: more)) :
    (chain (ps ++ others)).FailsAt (region ++ stop :: more) := by
  induction ps generalizing region with
  | nil => exact h region suffix_rfl
  | cons p ps ih =>
    obtain ⟨hp, hps⟩ := Bool.and_eq_true_iff.mp hps
    refine failsAt_append fun spelled rest hspells heq => ?_
    obtain ⟨z, rfl, rfl⟩ := Text.exists_within (not_mem_of_spells hp hspells) heq
    exact ih hps fun u hu => h u (hu.trans (suffix_append spelled z))

/-- A pattern goes up to a character only past a fixed text. -/
def Needs (p : Pattern) (needed : String) (stop : Char) : Prop :=
  ∀ region more, ¬ needed.toList <:+: region → p.FailsAt (region ++ stop :: more)

/-- What a pattern opens with is needed. -/
theorem Opens.needs (h : p.Opens needed) (hstop : stop ∉ needed.toList) : p.Needs needed stop := by
  intro region more hregion
  refine h.failsAt ?_
  rintro ⟨rest, hrest⟩
  obtain ⟨z, rfl, -⟩ := Text.exists_within hstop hrest.symm
  exact hregion (prefix_append needed.toList z).isInfix

/-- What is needed later may be anywhere before that character. -/
theorem Needs.after (h : q.Needs needed stop) (hp : p.avoids stop = true) :
    (p ++ q).Needs needed stop := by
  intro region more hregion
  refine failsAt_append fun spelled rest hspells heq => ?_
  obtain ⟨z, rfl, rfl⟩ := Text.exists_within (not_mem_of_spells hp hspells) heq
  exact h z more fun hz => hregion (hz.trans (suffix_append spelled z).isInfix)

/-- What later parts need is needed. -/
theorem needs_chain_append {others : List Pattern} (ps : List Pattern)
    (hps : ps.all (avoids stop) = true) (h : (chain others).Needs needed stop) :
    (chain (ps ++ others)).Needs needed stop := by
  induction ps with
  | nil => exact h
  | cons p ps ih =>
    obtain ⟨hp, hps⟩ := Bool.and_eq_true_iff.mp hps
    exact (ih hps).after hp

/-- What the parts need is needed. -/
theorem Needs.of_parts (h : (chain p.parts).Needs needed stop) : p.Needs needed stop :=
  fun region more hregion => (h region more hregion).of_parts

/-- A gap is read past what is needed. -/
theorem Reads.needed_gap {captured : List (Nat × List Char)} {region : List Char}
    (hq : q.Reads text rest captured) (s : String) (gap : List Char) (stop : Char)
    (more : List Char) (hgap : gap.any s.toList.contains = false) (hstop : stop ∈ s.toList)
    (hneeds : q.Needs needed stop)
    (htext : text ++ rest = region ++ stop :: more) (hregion : ¬ needed.toList <:+: region.tail) :
    (many (noneOf s) ++ q).Reads (gap ++ text) rest captured := by
  rw [any_eq_false] at hgap
  refine hq.greedy_gap (fun x hx => by simpa using hgap x hx) fun w v heq hne hw => ?_
  have hfree : stop ∉ w := fun hmem => by simpa [hstop] using hw stop hmem
  obtain ⟨z, rfl, rfl⟩ := Text.exists_within hfree (htext.symm.trans heq)
  refine hneeds z more fun hz => hregion (hz.trans ?_)
  obtain ⟨x, w, rfl⟩ := exists_cons_of_ne_nil hne
  exact (suffix_append w z).isInfix

end Pattern

end SiteAtlas
