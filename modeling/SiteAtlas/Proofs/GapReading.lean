import SiteAtlas.Proofs.PreferredReading

/-!
# Readings across gaps

Recognisers leave gaps, and the search turns back where a gap was left too early or too late. A
greedy gap ends at the last place where the rest can be read, a lazy one at the first. Where a
pattern can be read at all is settled by the texts that it spells.
-/

namespace SiteAtlas

open List

variable {c d : Cursor} {eagerness : Eagerness}

/-- A text is put together from a number of texts of a kind. -/
def Repeats (kind : List Char → Prop) : Nat → List Char → Prop
  | 0, text => text = []
  | n + 1, text => ∃ a b, text = a ++ b ∧ kind a ∧ Repeats kind n b

/-- Following what is remembered leads past it. -/
theorem Spot.eq_append_of_past? {cs : List Char} {s t : Spot} (h : s.past? (· == ·) cs = some t) :
    s.after = cs ++ t.after ∧ t.offset = s.offset + cs.length := by
  induction cs generalizing s with
  | nil =>
    obtain rfl := Option.some.inj h
    exact ⟨rfl, rfl⟩
  | cons x cs ih =>
    obtain ⟨next, hnext, hrest⟩ := Option.bind_eq_some_iff.mp h
    obtain ⟨y, hy, hpast, -⟩ := Cursor.past_of_read? (c := ⟨s, []⟩) (d := ⟨next, []⟩)
      (show (s.next? _).map _ = _ by rw [hnext, Option.map_some])
    obtain rfl := beq_iff_eq.mp hy
    obtain ⟨hafter, hoffset⟩ := ih hrest
    refine ⟨?_, ?_⟩
    · rw [hpast.after, hafter]
      rfl
    · rw [hoffset, hpast.offset, length_singleton, length_cons, Nat.add_assoc,
        Nat.add_comm 1]

namespace Pattern

variable {p q : Pattern} {text rest : List Char} {captured : List (Nat × List Char)}

/-- A text that a pattern can read, whatever is around. -/
def Spells : Pattern → List Char → Prop
  | .empty, text | .anchor _, text | .notAhead _, text => text = []
  | .one accepts, text => ∃ x, accepts x = true ∧ text = [x]
  | .seq first second, text => ∃ a b, text = a ++ b ∧ first.Spells a ∧ second.Spells b
  | .either first second, text => first.Spells text ∨ second.Spells text
  | .loop _ least extra body, text =>
    ∃ n, (∀ more ∈ extra, n ≤ more) ∧ Repeats body.Spells (least + n) text
  | .capture _ body, text => body.Spells text
  | .again _, _ => True

/-- What turns read is put together from each. -/
theorem exists_repeats_of_leads {reaches : Cursor → Cursor → Prop} {kind : List Char → Prop}
    (h : ∀ c d, reaches c d → ∃ text, c.Past text d ∧ kind text) {n : Nat}
    (hlead : Leads reaches n c d) : ∃ text, c.Past text d ∧ Repeats kind n text := by
  induction n generalizing c with
  | zero =>
    obtain rfl := hlead
    exact ⟨[], ⟨rfl, rfl⟩, rfl⟩
  | succ n ih =>
    obtain ⟨e, hstep, hrest⟩ := hlead
    obtain ⟨a, ha, hkind⟩ := h c e hstep
    obtain ⟨b, hb, hrepeats⟩ := ih hrest
    exact ⟨a ++ b, ha.trans hb, a, b, rfl, hkind, hrepeats⟩

/-- Between two cursors stands a text that the pattern spells. -/
theorem exists_spells_of_reaches (h : p.Reaches c d) : ∃ text, c.Past text d ∧ p.Spells text := by
  induction p generalizing c d with
  | empty =>
    obtain rfl := h
    exact ⟨[], ⟨rfl, rfl⟩, rfl⟩
  | one accepts =>
    obtain ⟨x, hx, hpast, -⟩ := Cursor.past_of_read? h
    exact ⟨[x], hpast, x, hx, rfl⟩
  | seq first second ihfirst ihsecond =>
    obtain ⟨e, hfirst, hsecond⟩ := h
    obtain ⟨a, ha, hspelled⟩ := ihfirst hfirst
    obtain ⟨b, hb, hrest⟩ := ihsecond hsecond
    exact ⟨a ++ b, ha.trans hb, a, b, rfl, hspelled, hrest⟩
  | either first second ihfirst ihsecond =>
    rcases h with hfirst | hsecond
    · obtain ⟨text, hpast, hspelled⟩ := ihfirst hfirst
      exact ⟨text, hpast, .inl hspelled⟩
    · obtain ⟨text, hpast, hspelled⟩ := ihsecond hsecond
      exact ⟨text, hpast, .inr hspelled⟩
  | loop eagerness least extra body ih =>
    obtain ⟨n, hn, hlead⟩ := h
    obtain ⟨text, hpast, hrepeats⟩ := exists_repeats_of_leads (fun c d => ih) hlead
    exact ⟨text, hpast, n, hn, hrepeats⟩
  | capture index body ih =>
    obtain ⟨e, he, rfl⟩ := h
    obtain ⟨text, hpast, hspelled⟩ := ih he
    exact ⟨text, ⟨hpast.after, hpast.offset⟩, hspelled⟩
  | again index =>
    obtain ⟨span, -, hpast⟩ := Option.bind_eq_some_iff.mp h
    obtain ⟨spot, hspot, hd⟩ := Option.bind_eq_some_iff.mp hpast
    obtain rfl := Option.some.inj hd
    obtain ⟨hafter, hoffset⟩ := Spot.eq_append_of_past? hspot
    exact ⟨span.text, ⟨hafter, hoffset⟩, trivial⟩
  | anchor place | notAhead body =>
    obtain ⟨-, rfl⟩ := h
    exact ⟨[], ⟨rfl, rfl⟩, rfl⟩

/-- A pattern cannot be read where nothing is that it spells. -/
theorem failsAt_of_spells (h : ∀ spelled more, p.Spells spelled → text ≠ spelled ++ more) :
    p.FailsAt text := by
  rintro c d rfl hreach
  obtain ⟨spelled, hpast, hspells⟩ := exists_spells_of_reaches hreach
  exact h spelled d.after hspells hpast.after

/-- One part is spelled after another. -/
theorem spells_append : (p ++ q).Spells text ↔ ∃ a b, text = a ++ b ∧ p.Spells a ∧ q.Spells b :=
  Iff.rfl

/-- One character of a class is spelled. -/
theorem spells_one {accepts : Char → Bool} :
    (one accepts).Spells text ↔ ∃ x, accepts x = true ∧ text = [x] :=
  Iff.rfl

/-- A character spells itself. -/
theorem spells_char {x : Char} : (char x).Spells text ↔ text = [x] := by
  constructor
  · rintro ⟨y, hy, rfl⟩
    rw [beq_iff_eq.mp hy]
  · rintro rfl
    exact ⟨x, beq_self_eq_true x, rfl⟩

/-- A text spells itself. -/
theorem spells_text {s : String} : (Pattern.text s).Spells text ↔ text = s.toList := by
  have hchars (cs text : List Char) : (chars cs).Spells text ↔ text = cs := by
    induction cs generalizing text with
    | nil => exact Iff.rfl
    | cons x cs ih =>
      rw [show chars (x :: cs) = char x ++ chars cs from rfl, spells_append]
      simp [spells_char, ih]
  exact hchars s.toList text

/-- A capture spells what it captures. -/
theorem spells_capture {index : Nat} : (capture index p).Spells text ↔ p.Spells text :=
  Iff.rfl

/-- Any number of characters of a class. -/
theorem repeats_one {accepts : Char → Bool} {n : Nat} :
    Repeats (one accepts).Spells n text ↔ text.length = n ∧ ∀ x ∈ text, accepts x = true := by
  induction n generalizing text with
  | zero => simp +contextual [Repeats]
  | succ n ih =>
    constructor
    · rintro ⟨a, b, rfl, ⟨x, hx, rfl⟩, hb⟩
      obtain ⟨rfl, hall⟩ := ih.mp hb
      exact ⟨by simp, forall_mem_cons.mpr ⟨hx, hall⟩⟩
    · rintro ⟨hlength, hall⟩
      obtain ⟨x, others, rfl⟩ := exists_cons_of_length_eq_add_one hlength
      obtain ⟨hx, hothers⟩ := forall_mem_cons.mp hall
      exact ⟨[x], others, rfl, ⟨x, hx, rfl⟩, ih.mpr ⟨by simpa using hlength, hothers⟩⟩

/-- A repetition spells texts of characters of its class. -/
theorem spells_loop_one {least : Nat} {accepts : Char → Bool} :
    (loop eagerness least none (one accepts)).Spells text ↔
      least ≤ text.length ∧ ∀ x ∈ text, accepts x = true := by
  constructor
  · rintro ⟨n, -, hrepeats⟩
    obtain ⟨hlength, hall⟩ := repeats_one.mp hrepeats
    exact ⟨by omega, hall⟩
  · rintro ⟨hleast, hall⟩
    exact ⟨text.length - least, by simp, repeats_one.mpr ⟨by omega, hall⟩⟩

section Gaps

variable {accepts : Char → Bool} {gap : List Char}

/-- No turns help if the rest can be read after none. -/
theorem furtherTurns_eq_none {β : Type} {k : Cursor → Option β} {bound : Nat}
    (hfails : ∀ w v, c.after = w ++ v → (∀ x ∈ w, accepts x = true) → q.FailsAt v) :
    furtherTurns (one accepts).run .greedy bound c (q.run · k) = none := by
  induction bound generalizing c with
  | zero => exact (hfails [] c.after rfl (by simp)).run_eq_none rfl k
  | succ bound ih =>
    rw [furtherTurns, (hfails [] c.after rfl (by simp)).run_eq_none rfl k, Option.or_none, run]
    cases hread : c.read? accepts with
    | none => rfl
    | some d =>
      obtain ⟨x, hx, hpast, -⟩ := Cursor.past_of_read? hread
      rw [Option.bind_some, if_neg (by rw [hpast.offset]; simp)]
      refine ih fun w v hafter hw => hfails (x :: w) v ?_ (forall_mem_cons.mpr ⟨hx, hw⟩)
      rw [hpast.after, hafter]
      rfl

/-- A gap is read up to where the rest is read, if nothing ends before. -/
theorem Reads.after_gap (hq : q.Reads text rest captured) (hgap : ∀ x ∈ gap, accepts x = true)
    (hend : ∀ {β : Type} (k : Cursor → Option β) (bound : Nat) (c : Cursor),
      c.after = text ++ rest → (q.run c k).isSome = true →
      furtherTurns (one accepts).run eagerness bound c (q.run · k) = q.run c k)
    (hpass : eagerness = .lazy → ∀ v, v <:+ gap → v ≠ [] → q.FailsAt (v ++ (text ++ rest))) :
    (loop eagerness 0 none (one accepts) ++ q).Reads (gap ++ text) rest captured := by
  have hturns (c : Cursor) (hc : c.after = gap ++ (text ++ rest)) :
      ∃ e, (∀ {β : Type} (k : Cursor → Option β) (bound : Nat), gap.length ≤ bound →
        (k e).isSome = true → furtherTurns (one accepts).run eagerness bound c (q.run · k) = k e) ∧
        c.Past (gap ++ text) e ∧ e.captured = captured ++ c.captured := by
    induction gap generalizing c with
    | nil =>
      obtain ⟨e, hprefers, hpast, hcaptured⟩ := hq c hc
      refine ⟨e, fun k bound _ hk => ?_, hpast, hcaptured⟩
      have hrun : q.run c k = k e := hprefers k hk
      rw [hend k bound c hc (hrun ▸ hk), hrun]
    | cons x gap ih =>
      obtain ⟨hx, hgap⟩ := forall_mem_cons.mp hgap
      have hread : c.read? accepts =
          some ⟨⟨x :: c.before, gap ++ (text ++ rest), c.offset + 1⟩, c.captures⟩ :=
        read?_cons hx hc
      obtain ⟨e, hfurther, hpast, hcaptured⟩ :=
        ih hgap (fun hlazy v hv => hpass hlazy v (hv.trans (suffix_cons x gap)))
          ⟨⟨x :: c.before, gap ++ (text ++ rest), c.offset + 1⟩, c.captures⟩ rfl
      refine ⟨e, fun k bound hbound hk => ?_, ?_, hcaptured⟩
      · obtain ⟨bound, rfl⟩ := Nat.exists_eq_add_one_of_ne_zero
          (Nat.ne_of_gt (Nat.lt_of_lt_of_le (Nat.succ_pos gap.length) hbound))
        have hnext := hfurther k bound (by simpa using hbound) hk
        cases eagerness with
        | greedy =>
          rw [furtherTurns, run, hread, Option.bind_some, if_neg (by simp), hnext,
            Option.or_of_isSome hk]
        | lazy =>
          have hfails := hpass rfl (x :: gap) suffix_rfl (by simp)
          rw [furtherTurns, hfails.run_eq_none hc, Option.none_or, run, hread, Option.bind_some,
            if_neg (by simp), hnext]
      · have hstep : c.Past [x]
            ⟨⟨x :: c.before, gap ++ (text ++ rest), c.offset + 1⟩, c.captures⟩ :=
          ⟨hc, rfl⟩
        exact hstep.trans hpast
  intro c hc
  rw [append_assoc] at hc
  obtain ⟨e, hfurther, hpast, hcaptured⟩ := hturns c hc
  refine ⟨e, fun k hk => ?_, hpast, hcaptured⟩
  exact hfurther k _ (by simp [turnBound, hc]; omega) hk

/-- A greedy gap ends at the last place for the rest. -/
theorem Reads.greedy_gap (hq : q.Reads text rest captured) (hgap : ∀ x ∈ gap, accepts x = true)
    (hlast : ∀ w v, text ++ rest = w ++ v → w ≠ [] → (∀ x ∈ w, accepts x = true) → q.FailsAt v) :
    (many (one accepts) ++ q).Reads (gap ++ text) rest captured := by
  refine hq.after_gap hgap (fun k bound c hc _ => ?_) (fun hlazy => by cases hlazy)
  cases bound with
  | zero => rfl
  | succ bound =>
    rw [furtherTurns, run]
    cases hread : c.read? accepts with
    | none => rfl
    | some d =>
      obtain ⟨x, hx, hnext, -⟩ := Cursor.past_of_read? hread
      rw [Option.bind_some, if_neg (by rw [hnext.offset]; simp), furtherTurns_eq_none,
        Option.none_or]
      intro w v hafter hw
      refine hlast (x :: w) v ?_ (by simp) (forall_mem_cons.mpr ⟨hx, hw⟩)
      rw [← hc, hnext.after, hafter]
      rfl

/-- A lazy gap ends at the first place for the rest. -/
theorem Reads.lazy_gap (hq : q.Reads text rest captured) (hgap : ∀ x ∈ gap, accepts x = true)
    (hfirst : ∀ v, v <:+ gap → v ≠ [] → q.FailsAt (v ++ (text ++ rest))) :
    (few (one accepts) ++ q).Reads (gap ++ text) rest captured := by
  refine hq.after_gap hgap (fun k bound c _ hk => ?_) (fun _ => hfirst)
  cases bound with
  | zero => rfl
  | succ bound => rw [furtherTurns, Option.or_of_isSome hk]

/-- A lazy gap ends where the rest can first begin. -/
theorem Reads.lazy_gap_of_begins (hq : q.Reads text rest captured) (gap : List Char)
    (starts : Char → Bool) (hgap : gap.all accepts = true) (hbegins : q.Begins starts)
    (hstarts : gap.any starts = false) :
    (few (one accepts) ++ q).Reads (gap ++ text) rest captured := by
  refine hq.lazy_gap (all_eq_true.mp hgap) fun v hv hne => hbegins.failsAt ?_
  obtain ⟨x, v, rfl⟩ := exists_cons_of_ne_nil hne
  rw [any_eq_false] at hstarts
  exact Bool.eq_false_iff.mpr (hstarts x (hv.mem mem_cons_self))

end Gaps

/-- The parts of a pattern in order. -/
def parts : Pattern → List Pattern
  | .seq first second => first.parts ++ [second]
  | p => [p]

/-- One part after the other. -/
def chain : List Pattern → Pattern
  | [] => .empty
  | p :: others => p ++ chain others

/-- Chains run in turn. -/
theorem run_chain_append (first second : List Pattern) {β : Type} (c : Cursor)
    (k : Cursor → Option β) :
    (chain (first ++ second)).run c k = (chain first).run c fun d => (chain second).run d k := by
  induction first generalizing c with
  | nil => rfl
  | cons p others ih =>
    change p.run c (fun d => (chain (others ++ second)).run d k) = _
    simp only [ih]
    rfl

/-- A pattern runs like its parts. -/
theorem run_chain_parts (p : Pattern) {β : Type} (c : Cursor) (k : Cursor → Option β) :
    (chain p.parts).run c k = p.run c k := by
  induction p generalizing c k with
  | seq first second ihfirst ihsecond =>
    rw [parts, run_chain_append, ihfirst]
    rfl
  | _ => rfl

/-- Chains lead on in turn. -/
theorem reaches_chain_append {first second : List Pattern} : (chain (first ++ second)).Reaches c d ↔
      ∃ e, (chain first).Reaches c e ∧ (chain second).Reaches e d := by
  induction first generalizing c with
  | nil =>
    constructor
    · exact fun h => ⟨c, rfl, h⟩
    · rintro ⟨e, rfl, h⟩
      exact h
  | cons p others ih =>
    constructor
    · rintro ⟨e, hp, hothers⟩
      obtain ⟨f, hf, hsecond⟩ := ih.mp hothers
      exact ⟨f, ⟨e, hp, hf⟩, hsecond⟩
    · rintro ⟨f, ⟨e, hp, hf⟩, hsecond⟩
      exact ⟨e, hp, ih.mpr ⟨f, hf, hsecond⟩⟩

/-- A pattern that is read is read part by part. -/
theorem reaches_chain_parts (h : p.Reaches c d) : (chain p.parts).Reaches c d := by
  induction p generalizing c d with
  | seq first second ihfirst ihsecond =>
    obtain ⟨e, hfirst, hsecond⟩ := h
    exact reaches_chain_append.mpr ⟨e, ihfirst hfirst, d, hsecond, rfl⟩
  | _ => exact ⟨d, h, rfl⟩

/-- A pattern reads what its parts do. -/
theorem Reads.of_parts (h : (chain p.parts).Reads text rest captured) :
    p.Reads text rest captured := by
  intro c hc
  obtain ⟨d, hprefers, hpast, hcaptured⟩ := h c hc
  exact ⟨d, fun k hk => (run_chain_parts p c k).symm.trans (hprefers k hk), hpast, hcaptured⟩

/-- Parts that cannot be read in order cannot be read. -/
theorem FailsAt.of_parts (h : (chain p.parts).FailsAt text) : p.FailsAt text :=
  fun c d hc hreach => h c d hc (reaches_chain_parts hreach)

/-- It does not matter how parts are grouped. -/
theorem failsAt_assoc {r : Pattern} (h : (p ++ (q ++ r)).FailsAt text) :
    (p ++ q ++ r).FailsAt text := by
  rintro c d hc ⟨e, ⟨f, hp, hq⟩, hr⟩
  exact h c d hc ⟨f, hp, e, hq, hr⟩

/-- A pattern fails if its rest does after its first part. -/
theorem failsAt_append (h : ∀ spelled more, p.Spells spelled → text = spelled ++ more →
    q.FailsAt more) : (p ++ q).FailsAt text := by
  rintro c d rfl ⟨e, hp, hq⟩
  obtain ⟨spelled, hpast, hspells⟩ := exists_spells_of_reaches hp
  exact h spelled e.after hspells hpast.after e d rfl hq

/-- A fixed text is read, and the rest after it. -/
theorem failsAt_text_append {s : String} (h : ∀ more, text = s.toList ++ more → q.FailsAt more) :
    (Pattern.text s ++ q).FailsAt text := by
  refine failsAt_append fun spelled more hspells htext => h more ?_
  rw [htext, spells_text.mp hspells]

/-- A fixed character is read, and the rest after it. -/
theorem failsAt_char_append {x : Char} (h : ∀ more, text = x :: more → q.FailsAt more) :
    (char x ++ q).FailsAt text := by
  refine failsAt_append fun spelled more hspells htext => h more ?_
  rw [htext, spells_char.mp hspells]
  rfl

/-- After a gap of a class, the rest is read. -/
theorem failsAt_gap_append {least : Nat} {accepts : Char → Bool}
    (h : ∀ w v, text = w ++ v → least ≤ w.length → (∀ x ∈ w, accepts x = true) → q.FailsAt v) :
    (loop eagerness least none (one accepts) ++ q).FailsAt text := by
  refine failsAt_append fun spelled more hspells htext => ?_
  obtain ⟨hleast, hall⟩ := spells_loop_one.mp hspells
  exact h spelled more htext hleast hall

end Pattern

end SiteAtlas
