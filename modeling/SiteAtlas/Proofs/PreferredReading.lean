import SiteAtlas.Proofs.Reading

/-!
# The reading that a pattern prefers

A pattern takes the first way to read a text that leads to an answer. `Pattern.Reads` says that it
reads a given text first, before a given rest, and what it captures; such readings are put together
along the shape of the pattern. The other half is that a pattern cannot be read, which is mostly
decided by what it begins with.
-/

namespace SiteAtlas

open List

variable {c : Cursor} {accepts : Char → Bool}

/-- What has been captured up to a cursor, latest first. -/
def Cursor.captured (c : Cursor) : List (Nat × List Char) :=
  c.captures.map fun entry => (entry.1, entry.2.text)

namespace Pattern

variable {p q : Pattern} {text rest : List Char} {captured : List (Nat × List Char)}

/-- Where a cursor gives an answer, so does a pattern leading there. -/
def Prefers (p : Pattern) (c d : Cursor) : Prop :=
  ∀ {β : Type} (k : Cursor → Option β), (k d).isSome = true → p.run c k = k d

/-- A pattern reads a text first, with given rest and captures. -/
def Reads (p : Pattern) (text rest : List Char) (captured : List (Nat × List Char)) : Prop :=
  ∀ c : Cursor, c.after = text ++ rest →
    ∃ d, p.Prefers c d ∧ c.Past text d ∧ d.captured = captured ++ c.captured

/-- What is read and captured may be written in other ways. -/
theorem Reads.of_eq {other : List Char} {others : List (Nat × List Char)}
    (h : p.Reads text rest captured) (htext : text = other) (hcaptured : captured = others) :
    p.Reads other rest others := by
  rwa [← htext, ← hcaptured]

/-- What follows the text that was read is the rest. -/
theorem after_eq_of_past {d : Cursor} (hc : c.after = text ++ rest) (h : c.Past text d) :
    d.after = rest :=
  append_cancel_left (h.after.symm.trans hc)

/-- Reading one part after another. -/
theorem Reads.seq {more : List Char} {others : List (Nat × List Char)}
    (hp : p.Reads text (more ++ rest) captured) (hq : q.Reads more rest others) :
    (p ++ q).Reads (text ++ more) rest (others ++ captured) := by
  intro c hc
  rw [append_assoc] at hc
  obtain ⟨d, hprefers, hpast, hcaptured⟩ := hp c hc
  obtain ⟨e, hnext, hfurther, hothers⟩ := hq d (after_eq_of_past hc hpast)
  refine ⟨e, fun k hk => ?_, ⟨?_, ?_⟩, ?_⟩
  · have hrest : q.run d k = k e := hnext k hk
    calc (p ++ q).run c k
        = q.run d k := hprefers (fun d => q.run d k) (by rw [hrest]; exact hk)
      _ = k e := hrest
  · rw [hpast.after, hfurther.after, append_assoc]
  · rw [hfurther.offset, hpast.offset, length_append, Nat.add_assoc]
  · rw [hothers, hcaptured, append_assoc]

/-- The empty pattern reads nothing. -/
theorem reads_empty (rest : List Char) : empty.Reads [] rest [] :=
  fun c _ => ⟨c, fun _ _ => rfl, ⟨rfl, rfl⟩, rfl⟩

/-- The next character is read if it is in the class. -/
theorem read?_cons {x : Char} (hx : accepts x = true) (hc : c.after = x :: rest) :
    c.read? accepts = some ⟨⟨x :: c.before, rest, c.offset + 1⟩, c.captures⟩ := by
  simp [Cursor.read?, Spot.next?, hc, hx]

/-- Reading one character of a class. -/
theorem reads_one {x : Char} (hx : accepts x = true) (rest : List Char) :
    (one accepts).Reads [x] rest [] := by
  intro c hc
  have hread : c.read? accepts = some ⟨⟨x :: c.before, rest, c.offset + 1⟩, c.captures⟩ :=
    read?_cons hx hc
  refine ⟨⟨⟨x :: c.before, rest, c.offset + 1⟩, c.captures⟩, fun k _ => ?_, ⟨hc, rfl⟩, rfl⟩
  rw [run, hread, Option.bind_some]

/-- A character is read. -/
theorem reads_char (x : Char) (rest : List Char) : (char x).Reads [x] rest [] := by
  apply reads_one
  exact beq_self_eq_true x

/-- Characters are read in turn. -/
theorem reads_chars (cs rest : List Char) : (chars cs).Reads cs rest [] := by
  induction cs with
  | nil => exact reads_empty rest
  | cons x cs ih =>
    exact (reads_char x _).seq ih

/-- A text is read. -/
theorem reads_text (s : String) (rest : List Char) : (Pattern.text s).Reads s.toList rest [] :=
  reads_chars s.toList rest

/-- What is read is captured. -/
theorem Reads.capture (index : Nat) (h : p.Reads text rest captured) :
    (capture index p).Reads text rest ((index, text) :: captured) := by
  intro c hc
  obtain ⟨d, hprefers, hpast, hcaptured⟩ := h c hc
  refine ⟨d.remember index c, fun k hk => hprefers _ hk, ⟨hpast.after, hpast.offset⟩, ?_⟩
  have hspan : (Span.mk c.after (d.offset - c.offset)).text = text := by
    rw [Span.text, hpast.offset, Nat.add_sub_cancel_left, hc, take_left]
  change (index, (Span.mk c.after (d.offset - c.offset)).text) :: d.captured = _
  rw [hspan, hcaptured, cons_append]

/-- A greedy repetition takes all characters of a class. -/
theorem furtherTurns_one (htext : ∀ x ∈ text, accepts x = true)
    (hrest : headIs accepts rest = false) (c : Cursor) (hc : c.after = text ++ rest) :
    ∃ d, c.Past text d ∧ d.captured = c.captured ∧
      ∀ {β : Type} (k : Cursor → Option β) (bound : Nat), text.length ≤ bound →
        (k d).isSome = true → furtherTurns (one accepts).run .greedy bound c k = k d := by
  induction text generalizing c with
  | nil =>
    refine ⟨c, ⟨rfl, rfl⟩, rfl, fun k bound _ _ => ?_⟩
    cases bound with
    | zero => rfl
    | succ bound =>
      have hnone : c.read? accepts = none := by
        cases rest with
        | nil => simp [Cursor.read?, Spot.next?, hc]
        | cons x rest =>
          have hx : accepts x = false := hrest
          simp [Cursor.read?, Spot.next?, hc, hx]
      rw [furtherTurns, run, hnone, Option.bind_none, Option.none_or]
  | cons x text ih =>
    have hx : accepts x = true := htext x mem_cons_self
    have hread : c.read? accepts = some ⟨⟨x :: c.before, text ++ rest, c.offset + 1⟩, c.captures⟩ :=
      read?_cons hx hc
    obtain ⟨d, hpast, hcaptured, hturns⟩ :=
      ih (fun y hy => htext y (mem_cons_of_mem x hy))
        ⟨⟨x :: c.before, text ++ rest, c.offset + 1⟩, c.captures⟩ rfl
    refine ⟨d, ⟨?_, ?_⟩, hcaptured, fun k bound hbound hk => ?_⟩
    · rw [hc, cons_append, cons_append, ← hpast.after]
    · rw [hpast.offset, length_cons, Nat.add_comm text.length, ← Nat.add_assoc]
    · cases bound with
      | zero => simp at hbound
      | succ bound =>
        have hnext := hturns k bound (by simpa using hbound) hk
        rw [furtherTurns, run, hread, Option.bind_some, if_neg (by simp), hnext,
          Option.or_of_isSome hk]

/-- Reading all characters of a class up to one that is not. -/
theorem reads_many (htext : ∀ x ∈ text, accepts x = true) (hrest : headIs accepts rest = false) :
    (many (one accepts)).Reads text rest [] := by
  intro c hc
  obtain ⟨d, hpast, hcaptured, hturns⟩ := furtherTurns_one htext hrest c hc
  refine ⟨d, fun k hk => ?_, hpast, hcaptured⟩
  exact hturns k _ (by simp [turnBound, hc]; omega) hk

/-- Reading all characters of a class, at least one. -/
theorem reads_many1 (hne : text ≠ []) (htext : ∀ x ∈ text, accepts x = true)
    (hrest : headIs accepts rest = false) : (many1 (one accepts)).Reads text rest [] := by
  obtain ⟨x, text, rfl⟩ := exists_cons_of_ne_nil hne
  -- At least one turn is one turn and then any number of them.
  have hsplit : ∀ {β : Type} (c : Cursor) (k : Cursor → Option β),
      (many1 (one accepts)).run c k = (one accepts ++ many (one accepts)).run c k :=
    fun c k => rfl
  have hseq : (one accepts ++ many (one accepts)).Reads ([x] ++ text) rest [] :=
    (reads_one (htext x mem_cons_self) _).seq
      (reads_many (fun y hy => htext y (mem_cons_of_mem x hy)) hrest)
  intro c hc
  obtain ⟨d, hprefers, hpast, hcaptured⟩ := hseq c hc
  exact ⟨d, fun k hk => by rw [hsplit, hprefers k hk], hpast, hcaptured⟩

/-- Something optional is read, or nothing. -/
theorem run_optional {β : Type} (p : Pattern) (c : Cursor) (k : Cursor → Option β) :
    (optional p).run c k = (p.run c k).or (k c) := by
  have hbound : turnBound (some 1) c = 1 := by simp [turnBound]
  rw [optional, run, turns, hbound, furtherTurns]
  congr 2
  funext d
  exact ite_self _

/-- What may be missing is read first. -/
theorem Reads.optional (h : p.Reads text rest captured) :
    (optional p).Reads text rest captured := by
  intro c hc
  obtain ⟨d, hprefers, hpast, hcaptured⟩ := h c hc
  refine ⟨d, fun k hk => ?_, hpast, hcaptured⟩
  rw [run_optional, hprefers k hk, Option.or_of_isSome hk]

/-- A pattern cannot be read where a text follows. -/
def FailsAt (p : Pattern) (text : List Char) : Prop :=
  ∀ c d : Cursor, c.after = text → ¬ p.Reaches c d

/-- A pattern that cannot be read gives no answer. -/
theorem FailsAt.run_eq_none (h : p.FailsAt text) {β : Type} (hc : c.after = text)
    (k : Cursor → Option β) : p.run c k = none := by
  rw [Option.eq_none_iff_forall_ne_some]
  intro b hb
  obtain ⟨d, hreach, -⟩ := p.reaches_of_run c k b hb
  exact h c d hc hreach

/-- A pattern that cannot be read has no match. -/
theorem FailsAt.matchAt_eq_none (h : p.FailsAt text) (before : List Char) (offset : Nat) :
    p.matchAt before offset text = none := by
  rw [matchAt, h.run_eq_none rfl, Option.map_none]

/-- A pattern has no match here, whatever stands before. -/
def Misses (p : Pattern) (text : List Char) : Prop :=
  ∀ before offset, p.matchAt before offset text = none

/-- Something optional that cannot be read is left out. -/
theorem FailsAt.optional (h : p.FailsAt rest) : (Pattern.optional p).Reads [] rest [] := by
  intro c hc
  refine ⟨c, fun k _ => ?_, ⟨rfl, rfl⟩, rfl⟩
  rw [run_optional, h.run_eq_none hc, Option.none_or]

/-- The first of two choices is taken if it can be read. -/
theorem Reads.either_left (h : p.Reads text rest captured) :
    (either p q).Reads text rest captured := by
  intro c hc
  obtain ⟨d, hprefers, hpast, hcaptured⟩ := h c hc
  refine ⟨d, fun k hk => ?_, hpast, hcaptured⟩
  rw [run, hprefers k hk, Option.or_of_isSome hk]

/-- The second of two choices is taken if the first cannot be read. -/
theorem Reads.either_right (h : q.Reads text rest captured) (hfails : p.FailsAt (text ++ rest)) :
    (either p q).Reads text rest captured := by
  intro c hc
  obtain ⟨d, hprefers, hpast, hcaptured⟩ := h c hc
  refine ⟨d, fun k hk => ?_, hpast, hcaptured⟩
  rw [run, hfails.run_eq_none hc, Option.none_or, hprefers k hk]

/-- A fixed text is read where it stands. -/
theorem past_of_reaches_chars {cs : List Char} {d : Cursor} (h : (chars cs).Reaches c d) :
    c.Past cs d := by
  induction cs generalizing c with
  | nil =>
    obtain rfl := h
    exact ⟨rfl, rfl⟩
  | cons x cs ih =>
    obtain ⟨e, hfirst, hrest⟩ := h
    obtain ⟨y, hy, hpast, -⟩ := Cursor.past_of_read? hfirst
    obtain rfl := beq_iff_eq.mp hy
    have hfurther := ih hrest
    refine ⟨?_, ?_⟩
    · rw [hpast.after, hfurther.after, cons_append, nil_append, cons_append]
    · rw [hfurther.offset, hpast.offset, length_singleton, length_cons,
        Nat.add_comm cs.length, Nat.add_assoc]

/-- A pattern reads a character of a class before anything else. -/
def Begins (accepts : Char → Bool) : Pattern → Prop
  | .one test => ∀ x, test x = true → accepts x = true
  | .seq first _ => first.Begins accepts
  | .either first second => first.Begins accepts ∧ second.Begins accepts
  | .loop _ least _ body => 0 < least ∧ body.Begins accepts
  | .capture _ body => body.Begins accepts
  | _ => False

/-- What a pattern begins with stands first in the text. -/
theorem Begins.exists_cons (h : p.Begins accepts) {d : Cursor} (hreach : p.Reaches c d) :
    ∃ x rest, c.after = x :: rest ∧ accepts x = true := by
  induction p generalizing c d with
  | one test =>
    obtain ⟨x, htest, hpast, -⟩ := Cursor.past_of_read? hreach
    exact ⟨x, d.after, hpast.after, h x htest⟩
  | seq first second ihfirst _ =>
    obtain ⟨e, hfirst, -⟩ := hreach
    exact ihfirst h hfirst
  | either first second ihfirst ihsecond =>
    rcases hreach with hfirst | hsecond
    · exact ihfirst h.1 hfirst
    · exact ihsecond h.2 hsecond
  | loop eagerness least extra body ih =>
    obtain ⟨n, -, hlead⟩ := hreach
    obtain ⟨least, rfl⟩ := Nat.exists_eq_succ_of_ne_zero (Nat.ne_of_gt h.1)
    rw [Nat.succ_add] at hlead
    obtain ⟨e, hstep, -⟩ := hlead
    exact ih h.2 hstep
  | capture index body ih =>
    obtain ⟨e, hbody, -⟩ := hreach
    exact ih h hbody
  | empty | again | anchor | notAhead => exact h.elim

/-- A pattern is not read where it cannot begin. -/
theorem Begins.failsAt (h : p.Begins accepts) (htext : headIs accepts text = false) :
    p.FailsAt text := by
  intro c d hc hreach
  obtain ⟨x, rest, hafter, hx⟩ := h.exists_cons hreach
  obtain rfl := hafter.symm.trans hc
  exact Bool.noConfusion (hx.symm.trans htext)

/-- Captured texts are looked up by index. -/
theorem lookup_texts (captures : List (Nat × Span)) (index : Nat) :
    (captures.map fun entry => (entry.1, entry.2.text)).lookup index =
      (captures.lookup index).map Span.text := by
  induction captures with
  | nil => rfl
  | cons entry others ih =>
    rw [map_cons, lookup_cons, lookup_cons]
    split
    · rfl
    · exact ih

/-- A first reading is a match with the captured texts as its groups. -/
theorem Reads.exists_matchAt (h : p.Reads text rest captured) (before : List Char) (offset : Nat) :
    ∃ m, p.matchAt before offset (text ++ rest) = some m ∧ m.text = text ∧
      ∀ index, m.group? index = captured.lookup index := by
  obtain ⟨d, hprefers, hpast, hcaptured⟩ := h ⟨⟨before, text ++ rest, offset⟩, []⟩ rfl
  refine ⟨_, by rw [matchAt, hprefers some rfl, Option.map_some], ?_, fun index => ?_⟩
  · rw [hpast.offset, Nat.add_sub_cancel_left, take_left]
  · have htexts : d.captures.map (fun entry => (entry.1, entry.2.text)) = captured := by
      rw [← append_nil captured]
      exact hcaptured
    rw [Match.group?, ← htexts, lookup_texts]

/-- The characters of a match are passed over. -/
theorem piecesFrom_skip (p : Pattern) (skipped rest before : List Char) (offset : Nat) :
    p.piecesFrom skipped.length before offset (skipped ++ rest) =
      p.piecesFrom 0 (skipped.reverse ++ before) (offset + skipped.length) rest := by
  induction skipped generalizing before offset with
  | nil => rfl
  | cons x skipped ih =>
    rw [length_cons, cons_append, piecesFrom, ih, reverse_cons, append_assoc]
    congr 1
    omega

/-- A match is a piece of its own. -/
theorem piecesFrom_hit {before : List Char} {offset : Nat} {m : Match} (hne : text ≠ [])
    (hmatch : p.matchAt before offset (text ++ rest) = some m) (htext : m.text = text) :
    p.piecesFrom 0 before offset (text ++ rest) =
      .hit m :: p.piecesFrom 0 (text.reverse ++ before) (offset + text.length) rest := by
  obtain ⟨x, others, rfl⟩ := exists_cons_of_ne_nil hne
  rw [cons_append] at hmatch ⊢
  rw [piecesFrom, hmatch]
  dsimp only
  rw [htext, length_cons, Nat.add_sub_cancel, piecesFrom_skip, reverse_cons, append_assoc]
  congr 2
  omega

/-- Where there is no match, characters stand for themselves. -/
theorem piecesFrom_of_misses (h : ∀ u, u <:+ text → u ≠ [] → p.Misses (u ++ rest))
    (before : List Char) (offset : Nat) : p.piecesFrom 0 before offset (text ++ rest) =
      text.map .plain ++ p.piecesFrom 0 (text.reverse ++ before) (offset + text.length) rest := by
  induction text generalizing before offset with
  | nil => rfl
  | cons x text ih =>
    have hmisses : p.Misses (x :: (text ++ rest)) := h (x :: text) suffix_rfl (by simp)
    rw [cons_append, piecesFrom, hmisses, map_cons, cons_append,
      ih (fun u hu => h u (hu.trans (suffix_cons x text))), reverse_cons,
      append_assoc, length_cons, Nat.add_comm text.length, ← Nat.add_assoc]
    rfl

/-- A text in which a pattern is nowhere read stays as it is. -/
theorem piecesFrom_of_failsAt (h : ∀ u, u <:+ text → u ≠ [] → p.FailsAt (u ++ rest))
    (before : List Char) (offset : Nat) : p.piecesFrom 0 before offset (text ++ rest) =
      text.map .plain ++ p.piecesFrom 0 (text.reverse ++ before) (offset + text.length) rest :=
  piecesFrom_of_misses (fun u hu hne => (h u hu hne).matchAt_eq_none) before offset

/-- Characters that begin no match stand for themselves. -/
theorem piecesFrom_plain (hbegins : p.Begins accepts) (htext : ∀ x ∈ text, accepts x = false)
    (before : List Char) (offset : Nat) : p.piecesFrom 0 before offset (text ++ rest) =
      text.map .plain ++ p.piecesFrom 0 (text.reverse ++ before) (offset + text.length) rest := by
  refine piecesFrom_of_failsAt (fun u hu hne => hbegins.failsAt ?_) before offset
  obtain ⟨x, others, rfl⟩ := exists_cons_of_ne_nil hne
  exact htext x (hu.mem mem_cons_self)

/-- A text in which a pattern is nowhere read is left as it is. -/
theorem replaceAll_of_failsAt (replacement : Match → List Char)
    (h : ∀ u, u <:+ text → u ≠ [] → p.FailsAt u) : p.replaceAll replacement text = text := by
  have hpieces : p.piecesFrom 0 [] 0 (text ++ []) =
      text.map .plain ++ p.piecesFrom 0 (text.reverse ++ []) (0 + text.length) [] :=
    piecesFrom_of_failsAt (fun u hu hne => by simpa using h u hu hne) [] 0
  rw [append_nil] at hpieces
  rw [replaceAll, pieces, hpieces, piecesFrom, append_nil, flatMap_map]
  exact flatMap_singleton' text

/-- A text without characters that begin a match is kept. -/
theorem replaceAll_eq_self (replacement : Match → List Char) (hbegins : p.Begins accepts)
    (htext : ∀ x ∈ text, accepts x = false) : p.replaceAll replacement text = text := by
  refine replaceAll_of_failsAt replacement fun u hu hne => hbegins.failsAt ?_
  obtain ⟨x, others, rfl⟩ := exists_cons_of_ne_nil hne
  exact htext x (hu.mem mem_cons_self)

/-- Nothing is removed from a text in which a pattern is nowhere read. -/
theorem eraseAll_of_failsAt (h : ∀ u, u <:+ text → u ≠ [] → p.FailsAt u) : p.eraseAll text = text :=
  replaceAll_of_failsAt _ h

/-- Nothing is removed from a text where no match begins. -/
theorem eraseAll_eq_self (hbegins : p.Begins accepts) (htext : ∀ x ∈ text, accepts x = false) :
    p.eraseAll text = text :=
  replaceAll_eq_self _ hbegins htext

end Pattern

end SiteAtlas
