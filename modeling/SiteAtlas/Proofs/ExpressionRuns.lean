import SiteAtlas.Pattern.Expression

/-!
# What assembled patterns read

For rows of literals, greedy repetitions of one character and optional parts, what a search succeeds
on is said without the search: `RowReads row kind` means that the row, before an attempt that
depends on the remaining text only, succeeds exactly where a text of the kind stands before one that
the attempt succeeds on. `RowReads.accepts` concludes for a pattern between both end marks.
-/

namespace SiteAtlas.Expression

open List

attribute [local simp] Step.run Node.assemble Node.width Node.behindWidths

/-- An attempt depends on the text after the spot only. -/
def Decides (k : Attempt) (p : List Char → Prop) : Prop :=
  ∀ s t, (k s t).isSuccess = true ↔ p s.after

/-- A text of one kind followed by one of another. -/
def Then (first second : List Char → Prop) (cs : List Char) : Prop :=
  ∃ u v, cs = u ++ v ∧ first u ∧ second v

/-- Texts of three kinds can be put together in either way. -/
theorem then_assoc (a b c : List Char → Prop) : Then (Then a b) c = Then a (Then b c) := by
  funext cs
  apply propext
  constructor
  · intro h
    obtain ⟨_, w, rfl, ⟨u, v, rfl, hu, hv⟩, hw⟩ := h
    exact ⟨u, v ++ w, append_assoc u v w, hu, v, w, rfl, hv, hw⟩
  · intro h
    obtain ⟨u, _, rfl, hu, v, w, rfl, hv, hw⟩ := h
    exact ⟨u ++ v, w, (append_assoc u v w).symm, ⟨u, v, rfl, hu, hv⟩, hw⟩

/-- A lead that holds of all texts of a kind. -/
def Lead.Fits (lead : Lead) (p : List Char → Prop) : Prop :=
  ∀ cs, p cs → lead.admits cs = true

/-- Steps after a lead read the texts of a kind. -/
structure Takes (assemble : Lead → Assembled) (kind : List Char → Prop) : Prop where
  decides : ∀ next k p inLoop, Decides k p → next.Fits p →
    Decides (fun s t => (assemble next).1.run inLoop s t k) (Then kind p)
  fits : ∀ next p, next.Fits p → (assemble next).2.Fits (Then kind p)

/-- Going on after a failure whatever the trail. -/
theorem Outcome.isSuccess_orElse_of {o : Outcome} {next : Trail → Outcome} {p : Prop}
    (h : ∀ t, (next t).isSuccess = true ↔ p) :
    (o.orElse next).isSuccess = true ↔ o.isSuccess = true ∨ p := by
  cases o with
  | success t => simp [orElse, isSuccess]
  | failure t =>
    show (next t).isSuccess = true ↔ false = true ∨ p
    rw [h, or_iff_right Bool.false_ne_true]

variable {k : Attempt} {p : List Char → Prop}

/-- Trying spots succeeds where one does. -/
theorem isSuccess_tryEach (hk : Decides k p) (exactly : Bool) (spots : List Spot) (t : Trail) :
    (tryEach exactly k spots t).isSuccess = true ↔ ∃ cs ∈ spots.map Spot.after, p cs := by
  induction spots generalizing t with
  | nil => simp [tryEach, Outcome.isSuccess]
  | cons s rest ih =>
    rw [tryEach, Outcome.isSuccess_orElse_of fun u => ih _, hk]
    simp

/-- The texts after the spots that a class reaches, longest last. -/
theorem map_after_reach (accepts : Char → Bool) (bound : Nat) (s : Spot) (passed : List Spot) :
    (s.reach accepts bound passed).map Spot.after =
      (List.range (min bound (s.after.takeWhile accepts).length + 1)).reverse.map
        (s.after.drop ·) ++ passed.map Spot.after := by
  induction bound generalizing s passed with
  | zero => simp [Spot.reach]
  | succ bound ih =>
    unfold Spot.reach Spot.next?
    cases hafter : s.after with
    | nil => simp [hafter]
    | cons c rest =>
      by_cases hc : accepts c = true
      · simp only [hc, if_true]
        rw [ih]
        have hcount : min (bound + 1) ((c :: rest).takeWhile accepts).length =
            min bound (rest.takeWhile accepts).length + 1 := by
          rw [takeWhile_cons_of_pos hc, length_cons]
          omega
        rw [hcount, range_succ_eq_map (n := _ + 1), reverse_cons, map_append,
          map_reverse, map_reverse, map_map]
        simp [hafter, Function.comp_def]
      · simp [hc, hafter]

/-- A greedy repetition leaves what is after enough characters. -/
theorem mem_candidates (accepts : Char → Bool) (least : Nat) (s : Spot) (cs : List Char) :
    cs ∈ (((s.reach accepts s.after.length []).take
        ((s.reach accepts s.after.length []).length - least)).map Spot.after) ↔
      ∃ u, s.after = u ++ cs ∧ least ≤ u.length ∧ ∀ c ∈ u, accepts c = true := by
  have hspots := map_after_reach accepts s.after.length s []
  have hshort : (s.after.takeWhile accepts).length ≤ s.after.length :=
    (List.takeWhile_prefix accepts).length_le
  rw [Nat.min_eq_right hshort, map_nil, append_nil] at hspots
  have hlength := congrArg List.length hspots
  simp only [length_map, length_reverse, length_range] at hlength
  rw [map_take, hspots, hlength, ← map_take, mem_map]
  generalize hm : (s.after.takeWhile accepts).length = m
  have hmem : ∀ j, j ∈ (List.range (m + 1)).reverse.take (m + 1 - least) ↔ least ≤ j ∧ j ≤ m := by
    intro j
    rw [take_reverse, mem_reverse, length_range, range_eq_range', drop_range', mem_range'_1]
    omega
  constructor
  · intro h
    obtain ⟨j, hj, rfl⟩ := h
    obtain ⟨hleast, hmost⟩ := (hmem j).mp hj
    have hread : s.after.take j = (s.after.takeWhile accepts).take j := by
      have hsplit := congrArg (List.take j) (@takeWhile_append_dropWhile _ accepts s.after)
      rw [← hsplit]
      exact take_append_of_le_length (hm ▸ hmost)
    refine ⟨s.after.take j, (take_append_drop j s.after).symm, ?_, ?_⟩
    · rw [length_take]
      omega
    · intro c hc
      rw [hread] at hc
      exact all_eq_true.mp all_takeWhile c (mem_of_mem_take hc)
  · intro h
    obtain ⟨u, hu, hleast, hall⟩ := h
    refine ⟨u.length, (hmem _).mpr ⟨hleast, ?_⟩, ?_⟩
    · rw [← hm, hu, takeWhile_append_of_pos hall, length_append]
      exact Nat.le_add_right _ _
    · rw [hu, drop_left]

/-- Reading one character of a class. -/
theorem decides_one (hk : Decides k p) (accepts : Char → Bool) (inLoop : Bool) :
    Decides (fun s t => (Step.one accepts).run inLoop s t k)
      (Then (fun w => ∃ c, w = [c] ∧ accepts c = true) p) := by
  intro s t
  simp only [Step.run, Spot.next?]
  cases hafter : s.after with
  | nil =>
    simp [Then, Outcome.isSuccess]
  | cons c rest =>
    by_cases hc : accepts c = true
    · simp only [hc, if_true]
      rw [hk]
      constructor
      · intro hp
        exact ⟨[c], rest, rfl, ⟨c, rfl, hc⟩, hp⟩
      · intro h
        obtain ⟨_, v, heq, ⟨d, rfl, -⟩, hp⟩ := h
        obtain ⟨rfl, rfl⟩ := List.cons.inj heq
        exact hp
    · simp only [hc]
      constructor
      · intro h
        cases h
      · intro h
        obtain ⟨_, v, heq, ⟨d, rfl, hd⟩, hp⟩ := h
        obtain ⟨rfl, rfl⟩ := List.cons.inj heq
        exact absurd hd hc

/-- A lead for a code point is met by the text that follows. -/
theorem Lead.Fits.nextIs {next : Lead} (h : next.Fits p) {s : Spot} (hp : p s.after) :
    (next.code?.all fun code => s.nextIs (·.toNat == code)) = true := by
  cases next with
  | literal code =>
    have hhead := h s.after hp
    unfold admits at hhead
    unfold Spot.nextIs
    cases hafter : s.after with
    | nil => simp [hafter] at hhead
    | cons c rest => simpa [code?, hafter] using hhead
  | set accepts => rfl
  | unknown => rfl

/-- Reading at least so many characters of a class. -/
theorem decides_span (hk : Decides k p) {next : Lead} (hnext : next.Fits p) (least : Nat)
    (test : CharTest) (inLoop : Bool) :
    Decides (fun s t => (Step.span .greedy least none test next.code?).run inLoop s t k)
      (Then (fun w => least ≤ w.length ∧ ∀ c ∈ w, test.accepts c = true) p) := by
  intro s t
  simp only [Step.run, spanFrom, spanBound]
  split
  · next hshort =>
    constructor
    · intro h
      cases h
    · intro h
      obtain ⟨u, v, heq, ⟨hleast, -⟩, -⟩ := h
      rw [heq, length_append] at hshort
      omega
  · rw [isSuccess_tryEach hk]
    constructor
    · intro h
      obtain ⟨cs, hcs, hp⟩ := h
      obtain ⟨spot, hspot, rfl⟩ := mem_map.mp hcs
      have hmem := mem_map_of_mem (f := Spot.after) (mem_filter.mp hspot).1
      obtain ⟨u, hu, hread⟩ := (mem_candidates _ _ _ _).mp hmem
      exact ⟨u, spot.after, hu, hread, hp⟩
    · intro h
      obtain ⟨u, v, heq, hread, hp⟩ := h
      obtain ⟨spot, hspot, rfl⟩ := mem_map.mp
        ((mem_candidates test.accepts least s v).mpr ⟨u, heq, hread⟩)
      exact ⟨spot.after, mem_map.mpr ⟨spot, mem_filter.mpr ⟨hspot, hnext.nextIs hp⟩, rfl⟩, hp⟩

/-- A part that may be left out. -/
theorem decides_optional (hk : Decides k p) {body : Step} {kind : List Char → Prop}
    (hbody : ∀ k, Decides k p → Decides (fun s t => body.run true s t k) (Then kind p))
    (inLoop : Bool) : Decides (fun s t => (Step.loop .greedy 0 (some 1) body).run inLoop s t k)
      (Then (fun w => w = [] ∨ kind w) p) := by
  have hrest : ∀ s (u : Trail),
      ((k s (u.standing s)).orElse fun v => .failure (v.standing s)).isSuccess = true ↔
        p s.after := by
    intro s u
    rw [Outcome.isSuccess_orElse_of (p := False) fun v => by simp [Outcome.isSuccess], or_false, hk]
  -- After its one turn, the repetition goes on with the rest.
  have hafter : ∀ fuel last, Decides (greedyTurns (body.run true) k fuel (some 0) last) p := by
    intro fuel last s t
    cases fuel with
    | zero => exact hk s _
    | succ fuel => exact hrest s t
  intro s t
  obtain ⟨fuel, hfuel⟩ : ∃ fuel, turnBound s = fuel + 1 := by
    refine ⟨turnBound s - 1, (Nat.sub_add_cancel ?_).symm⟩
    exact Nat.mul_pos (Nat.succ_pos _) (Nat.succ_pos _)
  simp only [Step.run, requiredTurns, hfuel]
  show (greedyTurns (body.run true) k (fuel + 1) (some 1) none s t).isSuccess = true ↔ _
  rw [greedyTurns]
  show (Outcome.orElse _ _).isSuccess = true ↔ _
  rw [Outcome.isSuccess_orElse_of fun u => hrest s (u.restore true t)]
  have hturn := hbody _ (hafter fuel (some s.offset)) s (t.standing s)
  refine (or_congr_left hturn).trans ⟨?_, ?_⟩
  · rintro (⟨u, v, heq, hkind, hp⟩ | hp)
    · exact ⟨u, v, heq, .inr hkind, hp⟩
    · exact ⟨[], s.after, rfl, .inl rfl, hp⟩
  · rintro ⟨u, v, heq, rfl | hkind, hp⟩
    · exact .inr (heq ▸ hp)
    · exact .inl ⟨u, v, heq, hkind, hp⟩

/-- A node reads texts of a kind and looks behind nowhere. -/
structure Node.Reads (n : Node) (kind : List Char → Prop) : Prop where
  takes : Takes (fun next => n.assemble {} next) kind
  width : ∀ w, kind w → n.width.1 ≤ w.length
  behind : n.behindWidths = []

/-- A row reads texts of a kind and looks behind nowhere. -/
structure RowReads (row : List Node) (kind : List Char → Prop) : Prop where
  takes : Takes (fun next => assembleRow {} next row) kind
  width : ∀ w, kind w → (rowWidth row).1 ≤ w.length
  behind : rowBehindWidths row = []

/-- Nothing before a text. -/
theorem then_nil (p : List Char → Prop) : Then (· = []) p = p := by
  funext cs
  apply propext
  constructor
  · intro h
    obtain ⟨_, v, rfl, rfl, hp⟩ := h
    exact hp
  · intro hp
    exact ⟨[], cs, rfl, rfl, hp⟩

/-- Nothing is read by no nodes. -/
theorem rowReads_nil : RowReads [] (· = []) := by
  refine ⟨⟨fun next k p inLoop hk _ => ?_, fun next p hnext => ?_⟩, ?_, rfl⟩
  · rw [then_nil]
    exact hk
  · rw [then_nil]
    exact hnext
  · intro w _
    exact Nat.zero_le _

variable {kind other : List Char → Prop}

/-- Texts of two kinds are as long as both ask for. -/
theorem length_of_then {m n : Nat} (hkind : ∀ w, kind w → m ≤ w.length)
    (hother : ∀ w, other w → n ≤ w.length) (w : List Char) (h : Then kind other w) :
    m + n ≤ w.length := by
  obtain ⟨u, v, rfl, hu, hv⟩ := h
  rw [length_append]
  exact Nat.add_le_add (hkind u hu) (hother v hv)

/-- Nodes of a row read one after the other. -/
theorem Node.Reads.cons {n : Node} {row : List Node} (hn : n.Reads kind)
    (hrow : RowReads row other) : RowReads (n :: row) (Then kind other) := by
  refine ⟨⟨fun next k p inLoop hk hnext => ?_, fun next p hnext => ?_⟩, ?_, ?_⟩
  · rw [then_assoc]
    exact hn.takes.decides _ _ _ inLoop (hrow.takes.decides next k p inLoop hk hnext)
      (hrow.takes.fits next p hnext)
  · rw [then_assoc]
    exact hn.takes.fits _ _ (hrow.takes.fits next p hnext)
  · exact length_of_then hn.width hrow.width
  · rw [rowBehindWidths, hn.behind, hrow.behind, append_nil]

/-- A row of one node reads what it does. -/
theorem Node.Reads.rowReads {n : Node} (hn : n.Reads kind) : RowReads [n] kind := by
  have hkind : Then kind (· = []) = kind := by
    funext cs
    simp [Then]
  rw [← hkind]
  exact hn.cons rowReads_nil

/-- Rows are assembled in turn. -/
theorem assembleRow_append (flags : Flags) (next : Lead) (first second : List Node) :
    (∀ inLoop s t k, (assembleRow flags next (first ++ second)).1.run inLoop s t k =
      (assembleRow flags (assembleRow flags next second).2 first).1.run inLoop s t fun s t =>
        (assembleRow flags next second).1.run inLoop s t k) ∧
      (assembleRow flags next (first ++ second)).2 =
        (assembleRow flags (assembleRow flags next second).2 first).2 := by
  induction first with
  | nil => exact ⟨fun inLoop s t k => rfl, rfl⟩
  | cons n first ih =>
    obtain ⟨hrun, hlead⟩ := ih
    constructor
    · intro inLoop s t k
      simp only [cons_append, assembleRow, Step.run, hlead, hrun]
    · simp only [cons_append, assembleRow, hlead]

/-- The width of a row adds up. -/
theorem rowWidth_append (first second : List Node) :
    (rowWidth (first ++ second)).1 = (rowWidth first).1 + (rowWidth second).1 := by
  induction first with
  | nil => simp [rowWidth]
  | cons n first ih => simp only [cons_append, rowWidth, ih, Nat.add_assoc]

/-- Looks behind are collected in order. -/
theorem rowBehindWidths_append (first second : List Node) :
    rowBehindWidths (first ++ second) = rowBehindWidths first ++ rowBehindWidths second := by
  induction first with
  | nil => simp [rowBehindWidths]
  | cons n first ih => simp only [cons_append, rowBehindWidths, ih, append_assoc]

/-- Rows in turn read texts in turn. -/
theorem RowReads.append {first second : List Node} (hfirst : RowReads first kind)
    (hsecond : RowReads second other) : RowReads (first ++ second) (Then kind other) := by
  refine ⟨⟨fun next k p inLoop hk hnext => ?_, fun next p hnext => ?_⟩, ?_, ?_⟩
  · rw [then_assoc]
    simp only [(assembleRow_append {} next first second).1]
    exact hfirst.takes.decides _ _ _ inLoop (hsecond.takes.decides next k p inLoop hk hnext)
      (hsecond.takes.fits next p hnext)
  · rw [then_assoc, (assembleRow_append {} next first second).2]
    exact hfirst.takes.fits _ _ (hsecond.takes.fits next p hnext)
  · rw [rowWidth_append]
    exact length_of_then hfirst.width hsecond.width
  · rw [rowBehindWidths_append, hfirst.behind, hsecond.behind, append_nil]

/-- A lead that says nothing fits everything. -/
theorem Lead.fits_unknown (p : List Char → Prop) : Lead.unknown.Fits p :=
  fun _ _ => rfl

/-- A literal reads its character. -/
theorem reads_literal (c : Char) : (Node.literal c.toNat).Reads (· = [c]) := by
  have hkind : (fun w => ∃ d : Char, w = [d] ∧ (d.toNat == c.toNat) = true) = (· = [c]) := by
    funext w
    apply propext
    constructor
    · intro h
      obtain ⟨d, rfl, hd⟩ := h
      rw [Char.toNat_inj.mp (eq_of_beq hd)]
    · intro heq
      subst heq
      exact ⟨c, rfl, beq_self_eq_true _⟩
  refine ⟨⟨fun next k p inLoop hk _ => ?_, fun next p _ cs hcs => ?_⟩, ?_, rfl⟩
  · rw [← hkind]
    exact decides_one hk _ inLoop
  · obtain ⟨_, v, rfl, rfl, -⟩ := hcs
    exact beq_self_eq_true c.toNat
  · rintro _ rfl
    exact Nat.le_refl 1

/-- Literals read their text. -/
theorem rowReads_literals (cs : List Char) :
    RowReads (cs.map fun c => .literal c.toNat) (· = cs) := by
  induction cs with
  | nil => exact rowReads_nil
  | cons c cs ih =>
    have hkind : Then (· = [c]) (· = cs) = (· = c :: cs) := by
      funext w
      simp [Then]
    rw [← hkind]
    exact (reads_literal c).cons ih

/-- A repeated test reads at least so many characters. -/
theorem reads_span {n : Node} {test : CharTest} (htest : n.test? {} = some test)
    (hwidth : n.width = (1, 1)) (hbehind : n.behindWidths = []) (least : Nat) :
    (Node.loop .greedy least none [n]).Reads
      (fun w => least ≤ w.length ∧ ∀ c ∈ w, test.accepts c = true) := by
  have hassemble : ∀ next, (Node.loop .greedy least none [n]).assemble {} next =
      (.span .greedy least none test next.code?, .unknown) := by
    intro next
    rw [Node.assemble, rowTest?, htest]
  refine ⟨⟨fun next k p inLoop hk hnext => ?_, fun next p _ => ?_⟩, ?_, ?_⟩
  · simp only [hassemble]
    exact decides_span hk hnext least test inLoop
  · rw [hassemble]
    exact Lead.fits_unknown _
  · intro w hw
    have hleast : ((Node.loop .greedy least none [n]).width).1 = least := by
      simp [rowWidth, hwidth, cutWidth, countLimit]
    rw [hleast]
    exact hw.1
  · simp [rowBehindWidths, hbehind]

/-- A row may be left out. -/
theorem RowReads.optional {row : List Node} (hrow : RowReads row kind)
    (htest : rowTest? {} row = none) :
    (Node.loop .greedy 0 (some 1) row).Reads (fun w => w = [] ∨ kind w) := by
  have hassemble : ∀ next, (Node.loop .greedy 0 (some 1) row).assemble {} next =
      (.loop .greedy 0 (some 1) (assembleRow {} .unknown row).1, .unknown) := by
    intro next
    rw [Node.assemble, htest]
  refine ⟨⟨fun next k p inLoop hk hnext => ?_, fun next p _ => ?_⟩, ?_, ?_⟩
  · simp only [hassemble]
    refine decides_optional hk (fun k hk => ?_) inLoop
    exact hrow.takes.decides .unknown k p true hk (Lead.fits_unknown p)
  · rw [hassemble]
    exact Lead.fits_unknown _
  · intro w _
    simp
  · rw [Node.behindWidths, hrow.behind]

/-- The end, or the final line break. -/
def AtLastLineEnd (cs : List Char) : Prop :=
  cs = [] ∨ cs = ['\n']

/-- The mark for the end of a text holds there. -/
theorem decides_lineEnd :
    Decides (fun s t => (assembleRow {} .unknown [.place .lineEnd]).1.run false s t arrived)
      AtLastLineEnd := by
  intro s t
  have hholds : Anchor.lastLineEnd.holds s = true ↔ AtLastLineEnd s.after := by
    simp [Anchor.holds, AtLastLineEnd]
  show (if Anchor.lastLineEnd.holds s = true then arrived s t else .failure t).isSuccess =
    true ↔ _
  rw [← hholds]
  split
  · next h => exact iff_of_true rfl h
  · next h => exact iff_of_false Bool.false_ne_true h

/-- End marks add nothing to the width of a row. -/
theorem RowReads.widthOf_le {row : List Node} (hrow : RowReads row kind) {cs : List Char}
    (hcs : Then kind AtLastLineEnd cs) :
    (widthOf (.place .lineStart :: (row ++ [.place .lineEnd]))).1 ≤ cs.length := by
  obtain ⟨w, rest, rfl, hw, -⟩ := hcs
  have hleast := hrow.width w hw
  have hsum : (rowWidth (.place .lineStart :: (row ++ [.place .lineEnd]))).1 =
      (rowWidth row).1 := by
    simp [rowWidth, rowWidth_append]
  rw [widthOf, cutWidth, hsum, length_append]
  omega

/-- A row between end marks reads whole texts, but for a final break. -/
theorem RowReads.accepts [Host] {row : List Node} (hrow : RowReads row kind) {written : List Char}
    (hread : read written = .ok (.place .lineStart :: (row ++ [.place .lineEnd]))) :
    ∃ e, ofText written = .ok e ∧ ∀ cs, e.accepts cs = true ↔ Then kind AtLastLineEnd cs := by
  have hbehind : checkBehind (.place .lineStart :: (row ++ [.place .lineEnd])) = .ok () := by
    simp [checkBehind, rowBehindWidths, rowBehindWidths_append, hrow.behind]
  have hsteps : ∀ cs,
      (assembleRow {} .unknown (.place .lineStart :: (row ++ [.place .lineEnd]))).1.succeedsOn cs =
        true ↔ Then kind AtLastLineEnd cs := by
    intro cs
    -- At the beginning of the text the first mark holds, and the row is run from there.
    show ((assembleRow {} .unknown (row ++ [.place .lineEnd])).1.run false (.start cs) _
      arrived).isSuccess = true ↔ _
    rw [(assembleRow_append {} .unknown row [.place .lineEnd]).1]
    exact hrow.takes.decides _ _ _ false decides_lineEnd (Lead.fits_unknown _) (.start cs) _
  refine ⟨_, by rw [ofText, hread]; simp only [bind, Except.bind, hbehind]; rfl, fun cs => ?_⟩
  rw [Expression.accepts, Bool.and_eq_true, decide_eq_true_eq, hsteps cs]
  constructor
  · intro h
    exact h.2
  · intro h
    exact ⟨hrow.widthOf_le h, h⟩

end SiteAtlas.Expression
