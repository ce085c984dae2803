import SiteAtlas.Pattern.Matching

/-!
# What patterns read

A pattern with an answer has read a part of the text along one of the ways that its shape allows.
`Pattern.Reaches` spells them out as a relation between cursors, so what a pattern can read and
capture is settled by induction on its shape, without preferences or the search.
-/

namespace SiteAtlas

open List

variable (p : Pattern)

/-- A row of turns leads from one cursor to another. -/
def Leads (step : Cursor → Cursor → Prop) : Nat → Cursor → Cursor → Prop
  | 0, c, d => d = c
  | n + 1, c, d => ∃ e, step c e ∧ Leads step n e d

/-- Turns can be followed by further turns. -/
theorem Leads.append {step : Cursor → Cursor → Prop} {m n : Nat} {c d e : Cursor}
    (h : Leads step m c d) (hfurther : Leads step n d e) : Leads step (m + n) c e := by
  induction m generalizing c with
  | zero =>
    obtain rfl := h
    rwa [Nat.zero_add]
  | succ m ih =>
    obtain ⟨next, hstep, hrest⟩ := h
    rw [Nat.succ_add]
    exact ⟨next, hstep, ih hrest⟩

/-- A pattern can be read from one cursor to another. -/
def Pattern.Reaches : Pattern → Cursor → Cursor → Prop
  | .empty, c, d => d = c
  | .one accepts, c, d => c.read? accepts = some d
  | .seq first second, c, d => ∃ e, first.Reaches c e ∧ second.Reaches e d
  | .either first second, c, d => first.Reaches c d ∨ second.Reaches c d
  | .loop _ least extra body, c, d =>
    ∃ n, (∀ more ∈ extra, n ≤ more) ∧ Leads body.Reaches (least + n) c d
  | .capture index body, c, d => ∃ e, body.Reaches c e ∧ d = e.remember index c
  | .again index, c, d => c.readAgain? index = some d
  | .anchor place, c, d => place.holds c.toSpot = true ∧ d = c
  | .notAhead body, c, d => body.run c some = none ∧ d = c

section Search

variable {β : Type} {step : Cursor → (Cursor → Option β) → Option β}
  {reaches : Cursor → Cursor → Prop}

/-- Turns that give an answer have led somewhere. -/
theorem leads_of_turns
    (hstep : ∀ c k b, step c k = some b → ∃ d, reaches c d ∧ k d = some b) (n : Nat) (c : Cursor)
    (k : Cursor → Option β) (b : β) (h : turns step n c k = some b) :
    ∃ d, Leads reaches n c d ∧ k d = some b := by
  induction n generalizing c with
  | zero => exact ⟨c, rfl, h⟩
  | succ n ih =>
    obtain ⟨e, he, hrest⟩ := hstep c _ b h
    obtain ⟨d, hd, hanswer⟩ := ih e hrest
    exact ⟨d, ⟨e, he, hd⟩, hanswer⟩

/-- Further turns with an answer led somewhere within the bound. -/
theorem leads_of_furtherTurns
    (hstep : ∀ c k b, step c k = some b → ∃ d, reaches c d ∧ k d = some b) (eagerness : Eagerness)
    (bound : Nat) (c : Cursor) (k : Cursor → Option β) (b : β)
    (h : furtherTurns step eagerness bound c k = some b) :
    ∃ n ≤ bound, ∃ d, Leads reaches n c d ∧ k d = some b := by
  induction bound generalizing c with
  | zero => exact ⟨0, Nat.le_refl 0, c, rfl, h⟩
  | succ bound ih =>
    -- Either the turns end here, or one more is taken; the eagerness only orders the two.
    have hcases : k c = some b ∨ step c (fun d =>
        if d.offset = c.offset then k d else furtherTurns step eagerness bound d k) = some b := by
      cases eagerness with
      | greedy =>
        rcases Option.or_eq_some_iff.mp h with hmore | ⟨-, hend⟩
        · exact Or.inr hmore
        · exact Or.inl hend
      | lazy =>
        rcases Option.or_eq_some_iff.mp h with hend | ⟨-, hmore⟩
        · exact Or.inl hend
        · exact Or.inr hmore
    rcases hcases with hend | hmore
    · exact ⟨0, Nat.zero_le _, c, rfl, hend⟩
    · obtain ⟨e, he, hrest⟩ := hstep c _ b hmore
      split at hrest
      · exact ⟨1, Nat.le_add_left 1 bound, e, ⟨e, he, rfl⟩, hrest⟩
      · obtain ⟨n, hn, d, hd, hanswer⟩ := ih e hrest
        exact ⟨n + 1, Nat.succ_le_succ hn, d, ⟨e, he, hd⟩, hanswer⟩

end Search

namespace Pattern

/-- A pattern that gives an answer was read up to some cursor. -/
theorem reaches_of_run {β : Type} (c : Cursor) (k : Cursor → Option β) (b : β)
    (h : p.run c k = some b) : ∃ d, p.Reaches c d ∧ k d = some b := by
  induction p generalizing β c k b with
  | empty => exact ⟨c, rfl, h⟩
  | one accepts => exact Option.bind_eq_some_iff.mp h
  | seq first second ihfirst ihsecond =>
    obtain ⟨e, he, hrest⟩ := ihfirst c _ b h
    obtain ⟨d, hd, hanswer⟩ := ihsecond e k b hrest
    exact ⟨d, ⟨e, he, hd⟩, hanswer⟩
  | either first second ihfirst ihsecond =>
    rcases Option.or_eq_some_iff.mp h with hfirst | ⟨-, hsecond⟩
    · obtain ⟨d, hd, hanswer⟩ := ihfirst c k b hfirst
      exact ⟨d, Or.inl hd, hanswer⟩
    · obtain ⟨d, hd, hanswer⟩ := ihsecond c k b hsecond
      exact ⟨d, Or.inr hd, hanswer⟩
  | loop eagerness least extra body ih =>
    obtain ⟨e, he, hrest⟩ := leads_of_turns (fun c k b => ih c k b) least c _ b h
    obtain ⟨n, hn, d, hd, hanswer⟩ :=
      leads_of_furtherTurns (fun c k b => ih c k b) eagerness _ e k b hrest
    refine ⟨d, ⟨n, ?_, he.append hd⟩, hanswer⟩
    rintro more rfl
    exact Nat.le_trans hn (Nat.min_le_left _ _)
  | capture index body ih =>
    obtain ⟨e, he, hanswer⟩ := ih c _ b h
    exact ⟨e.remember index c, ⟨e, he, rfl⟩, hanswer⟩
  | again index => exact Option.bind_eq_some_iff.mp h
  | anchor place =>
    rw [run] at h
    split at h
    · next hholds => exact ⟨c, ⟨hholds, rfl⟩, h⟩
    · cases h
  | notAhead body ih =>
    rw [run] at h
    split at h
    · cases h
    · next hnone => exact ⟨c, ⟨hnone, rfl⟩, h⟩

/-- A match was read from its beginning, with its captures. -/
theorem reaches_of_matchAt (before : List Char) (offset : Nat) (after : List Char) (m : Match)
    (h : p.matchAt before offset after = some m) :
    ∃ d, p.Reaches ⟨⟨before, after, offset⟩, []⟩ d ∧ m.captures = d.captures := by
  obtain ⟨d, hrun, rfl⟩ := Option.map_eq_some_iff.mp h
  obtain ⟨e, he, hanswer⟩ := p.reaches_of_run _ _ _ hrun
  obtain rfl := Option.some.inj hanswer
  exact ⟨e, he, rfl⟩

/-- A found match was matched there. -/
theorem matchAt_of_hit_mem_piecesFrom (skip : Nat) (before : List Char) (offset : Nat)
    (cs : List Char) (m : Match) (h : .hit m ∈ p.piecesFrom skip before offset cs) :
    ∃ before offset after, p.matchAt before offset after = some m := by
  fun_induction piecesFrom p skip before offset cs with
  | case1 => cases h
  | case2 before offset c rest skip ih => exact ih h
  | case3 before offset c rest found hfound ih =>
    rcases mem_cons.mp h with heq | hrest
    · cases heq
      exact ⟨_, _, _, hfound⟩
    · exact ih hrest
  | case4 before offset c rest hnone ih =>
    rcases mem_cons.mp h with heq | hrest
    · cases heq
    · exact ih hrest

/-- Every match that is found in a text is a match at some position. -/
theorem matchAt_of_mem_findAll (cs : List Char) (m : Match) (h : m ∈ p.findAll cs) :
    ∃ before offset after, p.matchAt before offset after = some m := by
  obtain ⟨piece, hpiece, hhit⟩ := mem_filterMap.mp h
  cases piece with
  | plain c => cases hhit
  | hit found =>
    obtain rfl := Option.some.inj hhit
    exact p.matchAt_of_hit_mem_piecesFrom 0 [] 0 cs found hpiece

end Pattern

/-- A cursor lies past another, with a given text between them. -/
structure Cursor.Past (c : Cursor) (text : List Char) (d : Cursor) : Prop where
  after : c.after = text ++ d.after
  offset : d.offset = c.offset + text.length

namespace Cursor

/-- A cursor lies past another, with characters of a class between them. -/
def PastOnly (accepts : Char → Prop) (c d : Cursor) : Prop :=
  ∃ text, c.Past text d ∧ ∀ x ∈ text, accepts x

/-- All that a cursor has captured is of a class. -/
def Holds (accepts : Char → Prop) (c : Cursor) : Prop :=
  ∀ entry ∈ c.captures, ∀ x ∈ entry.2.text, accepts x

variable {accepts : Char → Prop} {c d e : Cursor}

/-- Texts between cursors follow each other. -/
theorem Past.trans {text more : List Char} (h : c.Past text d) (hmore : d.Past more e) :
    c.Past (text ++ more) e :=
  ⟨by rw [h.after, hmore.after, append_assoc],
    by rw [hmore.offset, h.offset, length_append, Nat.add_assoc]⟩

/-- Nothing lies between a cursor and itself. -/
theorem pastOnly_self (accepts : Char → Prop) (c : Cursor) : c.PastOnly accepts c :=
  ⟨[], ⟨rfl, rfl⟩, by simp⟩

/-- The texts between three cursors follow each other. -/
theorem PastOnly.trans (h : c.PastOnly accepts d) (hmore : d.PastOnly accepts e) :
    c.PastOnly accepts e := by
  obtain ⟨text, htext, hof⟩ := h
  obtain ⟨more, hmore, hmoreOf⟩ := hmore
  refine ⟨text ++ more, htext.trans hmore, fun x hx => ?_⟩
  rcases mem_append.mp hx with hx | hx
  · exact hof x hx
  · exact hmoreOf x hx

/-- What is read is one character. -/
theorem past_of_read? {test : Char → Bool} (h : c.read? test = some d) :
    ∃ x, test x = true ∧ c.Past [x] d ∧ d.captures = c.captures := by
  obtain ⟨spot, hspot, rfl⟩ := Option.map_eq_some_iff.mp h
  rw [Spot.next?] at hspot
  split at hspot
  · cases hspot
  · next x rest hafter =>
    split at hspot
    · next htest =>
      obtain rfl := Option.some.inj hspot
      exact ⟨x, htest, ⟨hafter, rfl⟩, rfl⟩
    · cases hspot

end Cursor

namespace Pattern

/-- A pattern reads characters of a class only. -/
def ReadsOnly (accepts : Char → Prop) : Pattern → Prop
  | .empty | .anchor _ | .notAhead _ => True
  | .one test => ∀ x, test x = true → accepts x
  | .seq first second | .either first second =>
    first.ReadsOnly accepts ∧ second.ReadsOnly accepts
  | .loop _ _ _ body | .capture _ body => body.ReadsOnly accepts
  | .again _ => False

/-- A pattern captures characters of a class only. -/
def CapturesOnly (accepts : Char → Prop) : Pattern → Prop
  | .empty | .one _ | .again _ | .anchor _ | .notAhead _ => True
  | .seq first second | .either first second =>
    first.CapturesOnly accepts ∧ second.CapturesOnly accepts
  | .loop _ _ _ body => body.CapturesOnly accepts
  | .capture _ body => body.ReadsOnly accepts ∧ body.CapturesOnly accepts

variable {accepts : Char → Prop}

/-- What turns read is of a class if each turn's is. -/
theorem pastOnly_of_leads {reaches : Cursor → Cursor → Prop}
    (h : ∀ c d, reaches c d → c.PastOnly accepts d) (n : Nat) (c d : Cursor)
    (hlead : Leads reaches n c d) : c.PastOnly accepts d := by
  induction n generalizing c with
  | zero =>
    obtain rfl := hlead
    exact d.pastOnly_self accepts
  | succ n ih =>
    obtain ⟨e, hstep, hrest⟩ := hlead
    exact (h c e hstep).trans (ih e hrest)

/-- A pattern that reads a class only leads past such a text. -/
theorem ReadsOnly.pastOnly (h : p.ReadsOnly accepts) (c d : Cursor) (hreach : p.Reaches c d) :
    c.PastOnly accepts d := by
  induction p generalizing c d with
  | empty =>
    obtain rfl := hreach
    exact d.pastOnly_self accepts
  | one test =>
    obtain ⟨x, htest, hpast, -⟩ := Cursor.past_of_read? hreach
    exact ⟨[x], hpast, by simpa using h x htest⟩
  | seq first second ihfirst ihsecond =>
    obtain ⟨e, hfirst, hsecond⟩ := hreach
    exact (ihfirst h.1 c e hfirst).trans (ihsecond h.2 e d hsecond)
  | either first second ihfirst ihsecond =>
    rcases hreach with hfirst | hsecond
    · exact ihfirst h.1 c d hfirst
    · exact ihsecond h.2 c d hsecond
  | loop eagerness least extra body ih =>
    obtain ⟨n, -, hlead⟩ := hreach
    exact pastOnly_of_leads (fun c d => ih h c d) _ c d hlead
  | capture index body ih =>
    obtain ⟨e, he, rfl⟩ := hreach
    obtain ⟨text, htext, hof⟩ := ih h c e he
    exact ⟨text, ⟨htext.after, htext.offset⟩, hof⟩
  | again index => exact h.elim
  | anchor place =>
    obtain ⟨-, rfl⟩ := hreach
    exact d.pastOnly_self accepts
  | notAhead body ih =>
    obtain ⟨-, rfl⟩ := hreach
    exact d.pastOnly_self accepts

/-- A pattern that captures a class only leaves such captures. -/
theorem CapturesOnly.holds (h : p.CapturesOnly accepts) (c d : Cursor) (hreach : p.Reaches c d)
    (hc : c.Holds accepts) : d.Holds accepts := by
  induction p generalizing c d with
  | empty =>
    obtain rfl := hreach
    exact hc
  | one test =>
    obtain ⟨x, -, -, hcaptures⟩ := Cursor.past_of_read? hreach
    rwa [Cursor.Holds, hcaptures]
  | seq first second ihfirst ihsecond =>
    obtain ⟨e, hfirst, hsecond⟩ := hreach
    exact ihsecond h.2 e d hsecond (ihfirst h.1 c e hfirst hc)
  | either first second ihfirst ihsecond =>
    rcases hreach with hfirst | hsecond
    · exact ihfirst h.1 c d hfirst hc
    · exact ihsecond h.2 c d hsecond hc
  | loop eagerness least extra body ih =>
    obtain ⟨n, -, hlead⟩ := hreach
    generalize least + n = count at hlead
    induction count generalizing c with
    | zero =>
      obtain rfl := hlead
      exact hc
    | succ count ihcount =>
      obtain ⟨e, hstep, hrest⟩ := hlead
      exact ihcount e (ih h c e hstep hc) hrest
  | capture index body ih =>
    obtain ⟨e, he, rfl⟩ := hreach
    obtain ⟨text, htext, hof⟩ := h.1.pastOnly body c e he
    have hspan : (Span.mk c.after (e.offset - c.offset)).text = text := by
      rw [Span.text, htext.offset, Nat.add_sub_cancel_left, htext.after, take_left]
    intro entry hentry
    rcases mem_cons.mp hentry with rfl | hentry
    · rwa [hspan]
    · exact ih h.2 c e he hc entry hentry
  | again index =>
    obtain ⟨span, -, hpast⟩ := Option.bind_eq_some_iff.mp hreach
    obtain ⟨spot, -, hd⟩ := Option.bind_eq_some_iff.mp hpast
    obtain rfl := Option.some.inj hd
    exact hc
  | anchor place =>
    obtain ⟨-, rfl⟩ := hreach
    exact hc
  | notAhead body ih =>
    obtain ⟨-, rfl⟩ := hreach
    exact hc

/-- What a match captured is of the class its pattern captures. -/
theorem CapturesOnly.group (p : Pattern) (h : p.CapturesOnly accepts) (cs : List Char) (m : Match)
    (hm : m ∈ p.findAll cs) (index : Nat) (x : Char) (hx : x ∈ m.group index) : accepts x := by
  obtain ⟨before, offset, after, hmatch⟩ := p.matchAt_of_mem_findAll cs m hm
  obtain ⟨d, hreach, hcaptures⟩ := p.reaches_of_matchAt before offset after m hmatch
  have hholds : d.Holds accepts := h.holds p _ d hreach (by simp [Cursor.Holds])
  rw [Match.group, Match.group?, hcaptures] at hx
  cases hlookup : d.captures.lookup index with
  | none => simp [hlookup] at hx
  | some span =>
    rw [hlookup] at hx
    obtain ⟨first, rest, hsplit, -⟩ := lookup_eq_some_iff.mp hlookup
    exact hholds (index, span) (by simp [hsplit]) x hx

/-- Something optional is left out or read. -/
theorem reaches_optional {p : Pattern} {c d : Cursor} (h : (optional p).Reaches c d) :
    d = c ∨ p.Reaches c d := by
  obtain ⟨n, hn, hlead⟩ := h
  have hn : n ≤ 1 := hn 1 rfl
  rw [Nat.zero_add] at hlead
  rcases Nat.le_one_iff_eq_zero_or_eq_one.mp hn with rfl | rfl
  · exact .inl hlead
  · obtain ⟨e, hstep, rfl⟩ := hlead
    exact .inr hstep

/-- Whether nothing is captured. -/
def capturesNothing : Pattern → Bool
  | .empty | .one _ | .again _ | .anchor _ | .notAhead _ => true
  | .seq first second | .either first second => first.capturesNothing && second.capturesNothing
  | .loop _ _ _ body => body.capturesNothing
  | .capture _ _ => false

/-- No captures are of any class. -/
theorem capturesOnly_of_capturesNothing (h : p.capturesNothing = true) :
    p.CapturesOnly accepts := by
  induction p with
  | empty | one | again | anchor | notAhead => trivial
  | seq first second ihfirst ihsecond | either first second ihfirst ihsecond =>
    rw [capturesNothing, Bool.and_eq_true] at h
    exact ⟨ihfirst h.1, ihsecond h.2⟩
  | loop eagerness least extra body ih => exact ih h
  | capture index body => cases h

/-- Characters read themselves only. -/
theorem readsOnly_chars (cs : List Char) : (chars cs).ReadsOnly accepts ↔ ∀ x ∈ cs, accepts x := by
  induction cs with
  | nil => simp [chars, ReadsOnly]
  | cons c rest ih => simp [chars, char, ReadsOnly, ih]

/-- A choice among fixed texts reads their characters. -/
theorem readsOnly_texts (options : List String) :
    (texts options).ReadsOnly accepts ↔ ∀ option ∈ options, ∀ x ∈ option.toList, accepts x := by
  unfold texts
  induction options with
  | nil => simp [choice, ReadsOnly]
  | cons option rest ih =>
    cases rest with
    | nil => simp [choice, text, readsOnly_chars]
    | cons next others =>
      rw [map_cons, map_cons, choice, ReadsOnly, ← map_cons, ih, text,
        readsOnly_chars, forall_mem_cons (l := next :: others)]
      exact fun h => by cases h

end Pattern

end SiteAtlas
