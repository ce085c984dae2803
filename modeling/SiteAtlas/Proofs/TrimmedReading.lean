import SiteAtlas.Proofs.FinalSuffix
import SiteAtlas.Proofs.GapReading

/-!
# Readings that are found

What is found is read somewhere, and what can be read is found. A text captured as short as
possible, before blanks and the end, is captured without its last blanks.
-/

namespace SiteAtlas

open List

namespace Pattern

variable {p q : Pattern} {text rest cs : List Char} {captured : List (Nat × List Char)}

/-- The leftmost match was read at some position of the text. -/
theorem exists_reaches_of_find? {m : Match} (h : p.find? cs = some m) :
    ∃ before c d, cs = before ++ c.after ∧ p.Reaches c d ∧ m.captures = d.captures := by
  suffices hfrom : ∀ left offset, p.findFrom? left offset cs = some m →
      ∃ before c d, cs = before ++ c.after ∧ p.Reaches c d ∧ m.captures = d.captures from
    hfrom [] 0 h
  clear h
  induction cs with
  | nil => exact fun _ _ h => by cases h
  | cons x cs ih =>
    intro left offset h
    rcases Option.or_eq_some_iff.mp h with hhere | ⟨-, hlater⟩
    · obtain ⟨d, hreach, hcaptures⟩ := p.reaches_of_matchAt _ _ _ m hhere
      exact ⟨[], _, d, rfl, hreach, hcaptures⟩
    · obtain ⟨before, c, d, heq, hreach⟩ := ih _ _ hlater
      exact ⟨x :: before, c, d, by rw [heq, cons_append], hreach⟩

/-- A pattern that is read somewhere in a text has a match there. -/
theorem Reads.exists_find? (h : p.Reads text rest captured) (hne : text ≠ [])
    (before : List Char) : ∃ m, p.find? (before ++ (text ++ rest)) = some m := by
  suffices hfrom : ∀ left offset,
      ∃ m, p.findFrom? left offset (before ++ (text ++ rest)) = some m from hfrom [] 0
  induction before with
  | nil =>
    intro left offset
    obtain ⟨m, hmatch, -⟩ := h.exists_matchAt left offset
    obtain ⟨x, others, rfl⟩ := exists_cons_of_ne_nil hne
    exact ⟨m, by rw [nil_append, cons_append, findFrom?, ← cons_append, hmatch, Option.some_or]⟩
  | cons x before ih =>
    intro left offset
    rw [cons_append, findFrom?]
    cases p.matchAt left offset (x :: (before ++ (text ++ rest))) with
    | some m => exact ⟨m, rfl⟩
    | none => exact ih _ _

/-- A pattern that is read at the beginning of a text is found there. -/
theorem Reads.exists_find?_start (h : p.Reads text rest captured) (hne : text ≠ []) :
    ∃ m, p.find? (text ++ rest) = some m ∧ ∀ index, m.group? index = captured.lookup index := by
  obtain ⟨m, hmatch, -, hgroups⟩ := h.exists_matchAt [] 0
  obtain ⟨x, others, rfl⟩ := exists_cons_of_ne_nil hne
  exact ⟨m, by rw [find?, cons_append, findFrom?, ← cons_append, hmatch, Option.some_or], hgroups⟩

/-- A pattern for the start of a text is matched by its rest. -/
theorem Reads.exists_matchStart? {others : List Pattern} (hparts : p.parts = textStart :: others)
    (h : (chain others).Reads text [] captured) :
    ∃ m, p.matchStart? text = some m ∧ ∀ index, m.group? index = captured.lookup index := by
  obtain ⟨m, hmatch, -, hgroups⟩ := h.exists_matchAt [] 0
  rw [append_nil] at hmatch
  refine ⟨m, ?_, hgroups⟩
  rw [matchStart?, matchAt, ← run_chain_parts, hparts]
  exact hmatch

/-- Nothing but blanks is read before the end of a text. -/
theorem failsAt_blanks_end {x : Char} (hx : x ∈ cs) (hblank : Text.isBlank x = false) :
    (chain [blanks, lastLineEnd]).FailsAt cs := by
  refine failsAt_gap_append fun w v heq _ hw c d hc ⟨e, hreach, _⟩ => ?_
  have htail : ∀ y ∈ v, Text.isBlank y = true := by
    intro y hy
    rcases hc ▸ afterLastLine_of_reaches hreach with rfl | rfl
    · cases hy
    · rw [mem_singleton.mp hy]
      rfl
  rw [heq] at hx
  rcases mem_append.mp hx with hx | hx
  · exact Bool.noConfusion (hblank.symm.trans (hw x hx))
  · exact Bool.noConfusion (hblank.symm.trans (htail x hx))

/-- A lazy repetition ends where its continuation first gives an answer. -/
theorem furtherTurns_lazy {accepts : Char → Bool} (htext : ∀ x ∈ text, accepts x = true)
    (c : Cursor) (hc : c.after = text ++ rest) : ∃ d, c.Past text d ∧ d.captured = c.captured ∧
      ∀ {β : Type} (k : Cursor → Option β) (bound : Nat), text.length ≤ bound →
        (∀ e v, v <:+ text → v ≠ [] → e.after = v ++ rest → k e = none) →
        (k d).isSome = true → furtherTurns (one accepts).run .lazy bound c k = k d := by
  induction text generalizing c with
  | nil =>
    refine ⟨c, ⟨rfl, rfl⟩, rfl, fun k bound _ _ hk => ?_⟩
    cases bound with
    | zero => rfl
    | succ bound => rw [furtherTurns, Option.or_of_isSome hk]
  | cons x text ih =>
    obtain ⟨hx, htext⟩ := forall_mem_cons.mp htext
    obtain ⟨d, hpast, hcaptured, hturns⟩ :=
      ih htext ⟨⟨x :: c.before, text ++ rest, c.offset + 1⟩, c.captures⟩ rfl
    have hstep : c.Past [x] ⟨⟨x :: c.before, text ++ rest, c.offset + 1⟩, c.captures⟩ := ⟨hc, rfl⟩
    refine ⟨d, hstep.trans hpast, hcaptured, fun k bound hbound hnone hk => ?_⟩
    cases bound with
    | zero => simp at hbound
    | succ bound =>
      have hnext := hturns k bound (by simpa using hbound)
        (fun e v hv => hnone e v (hv.trans (suffix_cons x text))) hk
      have hread : c.read? accepts =
          some ⟨⟨x :: c.before, text ++ rest, c.offset + 1⟩, c.captures⟩ := read?_cons hx hc
      rw [furtherTurns, hnone c (x :: text) suffix_rfl (by simp) hc, Option.none_or, run,
        hread, Option.bind_some, if_neg (by simp), hnext]

/-- A text that ends with no blank is captured up to blanks. -/
theorem reads_trimmed {accepts : Char → Bool} {body trail : List Char} (index : Nat)
    (hne : body ≠ []) (hbody : ∀ x ∈ body, accepts x = true)
    (hlast : headIs Text.isBlank body.reverse = false)
    (htrail : ∀ x ∈ trail, Text.isBlank x = true) :
    (chain [capture index (few1 (one accepts)), blanks, lastLineEnd]).Reads (body ++ trail) []
      [(index, body)] := by
  -- Wherever the text is not finished yet, its last character is still to come.
  have hunfinished (v : List Char) (hv : v <:+ body) (hvne : v ≠ []) :
      (chain [blanks, lastLineEnd]).FailsAt (v ++ trail) := by
    obtain ⟨front, y, rfl⟩ := eq_nil_or_concat' v |>.resolve_left hvne
    have hy : Text.isBlank y = false := by
      obtain ⟨before, rfl⟩ := hv
      simpa [headIs] using hlast
    exact failsAt_blanks_end (by simp) hy
  have hend : (chain [blanks, lastLineEnd]).Reads trail [] [] :=
    ((reads_many htrail rfl).seq ((reads_lastLineEnd (.inl rfl)).seq (reads_empty []))).of_eq
      (append_nil trail) rfl
  intro c hc
  obtain ⟨x, body, rfl⟩ := exists_cons_of_ne_nil hne
  obtain ⟨hx, hbody⟩ := forall_mem_cons.mp hbody
  rw [append_nil, cons_append] at hc
  have hread : c.read? accepts =
      some ⟨⟨x :: c.before, body ++ trail, c.offset + 1⟩, c.captures⟩ := read?_cons hx hc
  obtain ⟨d, hpast, hcaptured, hturns⟩ := furtherTurns_lazy hbody
    ⟨⟨x :: c.before, body ++ trail, c.offset + 1⟩, c.captures⟩ rfl
  have hstep : c.Past [x] ⟨⟨x :: c.before, body ++ trail, c.offset + 1⟩, c.captures⟩ := ⟨hc, rfl⟩
  have hwhole : c.Past (x :: body) d := hstep.trans hpast
  have hafter : d.after = trail := append_cancel_left hpast.after.symm
  obtain ⟨e, hprefers, hfurther, hothers⟩ :=
    hend (d.remember index c) (hafter.trans (append_nil trail).symm)
  refine ⟨e, fun k hk => ?_, hwhole.trans ⟨hfurther.after, hfurther.offset⟩, ?_⟩
  · have hanswer : (chain [blanks, lastLineEnd]).run (d.remember index c) k = k e := hprefers k hk
    change (c.read? accepts).bind (fun f => furtherTurns (one accepts).run .lazy
      (turnBound none f) f fun g => (chain [blanks, lastLineEnd]).run (g.remember index c) k) = k e
    rw [hread, Option.bind_some, hturns _ _ (by simp [turnBound]; omega) ?_ (by rw [hanswer, hk]),
      hanswer]
    intro f v hv hvne hf
    have hremembered : (f.remember index c).after = v ++ trail := hf
    exact (hunfinished v (hv.trans (suffix_cons x body)) hvne).run_eq_none hremembered k
  · have hspan : (Span.mk c.after (d.offset - c.offset)).text = x :: body := by
      rw [Span.text, hwhole.offset, Nat.add_sub_cancel_left, hwhole.after, take_left]
    rw [hothers]
    change (index, (Span.mk c.after (d.offset - c.offset)).text) :: d.captured = _
    rw [hspan, hcaptured]
    rfl

end Pattern

end SiteAtlas
