import SiteAtlas.Pattern.Expression.Reader

/-!
# How written patterns are read

A row is read from its tokens step by step, with fuel for three steps a token. `ReadsAs` says that
a text becomes nodes of a row wherever it stands; such texts can be put together, repeated and made
optional, and `ReadsAs.read` concludes for a text between both end marks.
-/

namespace SiteAtlas.Expression

open List

variable {c : Char}

/-- Characters that end a row, open a group or repeat. -/
def rowMarks : List Char :=
  ['|', ')', '(', '?', '*', '+', '\x7b']

/-- Characters that do not stand for themselves. -/
def atomMarks : List Char :=
  ['[', '.', '^', '$']

/-- No mark follows that changes a repetition. -/
def Unmarked (ts : List Token) : Prop :=
  readManner ts = (.greedy, ts)

/-- A text is read into a row, one unit of fuel a character. -/
structure ReadsAs [Host] (text : List Char) (row : List Node) : Prop where
  goesOn : ∀ fuel g nodes rest, Unmarked rest → ∃ left, fuel ≤ left ∧
    readRow (fuel + text.length) false g nodes (text.map .plain ++ rest) =
      readRow left false g (row.reverse ++ nodes) rest
  /-- The text begins with no mark for the repetition before. -/
  unmarked : ∀ rest, Unmarked rest → Unmarked (text.map .plain ++ rest)
  /-- No node of the row is a group that stands for its contents. -/
  kept : row.flatMap Node.unwrapped = row

section steps

variable {fuel : Nat} {g : Groups} {nodes : List Node} {ts rest : List Token}

/-- A character that is no mark is a node or begins one. -/
theorem readRow_atom [Host] (hc : c ∉ rowMarks) {n : Node}
    (hatom : readAtom g (.plain c) ts = .ok (n, rest)) :
    readRow (fuel + 1) false g nodes (.plain c :: ts) = readRow fuel false g (n :: nodes) rest := by
  simp only [rowMarks, mem_cons, not_or] at hc
  obtain ⟨hbar, hclose, hopen, hmarks⟩ := hc
  have hmark : readMark (.plain c) ts = .ok none := by
    unfold readMark
    split <;> simp_all
  have hskip : isSkipped false (.plain c) = false := rfl
  have hcomment : startsComment false (.plain c) = false := rfl
  simp [readRow, hskip, hcomment, hmark, hatom, hbar, hclose, hopen, bind, Except.bind]

/-- Most characters stand for themselves. -/
theorem readRow_literal [Host] (hrow : c ∉ rowMarks) (hatom : c ∉ atomMarks) :
    readRow (fuel + 1) false g nodes (.plain c :: ts) =
      readRow fuel false g (.literal c.toNat :: nodes) ts := by
  apply readRow_atom hrow
  unfold readAtom
  split <;> simp_all [atomMarks]

/-- Nodes that a mark can repeat. -/
def Node.isRepeatable : Node → Bool
  | .place _ => false
  | .loop _ _ _ _ => false
  | _ => true

/-- A node is repeated greedily if nothing else is said. -/
theorem repeatLast_of_unmarked {n : Node} (hn : n.isRepeatable = true) (hts : Unmarked ts)
    (bounds : Bounds) : repeatLast bounds (n :: nodes) ts =
      .ok (.loop .greedy bounds.1 bounds.2 n.unwrapped :: nodes, ts) := by
  unfold Unmarked at hts
  cases n with
  | place _ => cases hn
  | loop _ _ _ _ => cases hn
  | _ => simp only [repeatLast, hts]

/-- A mark repeats the last node. -/
theorem readRow_repeat [Host] {n : Node} (hn : n.isRepeatable = true) (hts : Unmarked ts)
    {mark : Char} {bounds : Bounds} (hmark : readMark (.plain mark) ts = .ok (some (bounds, ts))) :
    readRow (fuel + 1) false g (n :: nodes) (.plain mark :: ts) =
      readRow fuel false g (.loop .greedy bounds.1 bounds.2 n.unwrapped :: nodes) ts := by
  have hskip : isSkipped false (.plain mark) = false := rfl
  have hcomment : startsComment false (.plain mark) = false := rfl
  have hmarks : mark ≠ '|' ∧ mark ≠ ')' ∧ mark ≠ '(' := by
    refine ⟨?_, ?_, ?_⟩ <;>
    · intro heq
      subst heq
      cases hmark
  simp [readRow, hskip, hcomment, hmark, repeatLast_of_unmarked hn hts, hmarks, bind, Except.bind]

/-- A group goes into its row. -/
theorem readRow_group [Host] {g' : Groups} {n : Node}
    (hgroup : readGroup fuel false g ts = .ok (some n, g', rest)) :
    readRow (fuel + 1) false g nodes (.plain '(' :: ts) =
      readRow fuel false g' (n :: nodes) rest := by
  simp [readRow, hgroup, isSkipped, startsComment, bind, Except.bind]

/-- A row is an alternative. -/
theorem readAlternatives_of_readRow [Host] {g' : Groups} {row : List Node}
    (hrow : readRow fuel false g [] ts = .ok (row, g', rest))
    (hbar : rest.head? ≠ some (.plain '|')) :
    readAlternatives (fuel + 1) false g ts = .ok ([row], g', rest) := by
  simp only [readAlternatives, hrow, bind, Except.bind]
  split
  · exact absurd rfl hbar
  · rfl

end steps

variable {text other : List Char} {row others : List Node}

/-- Only two marks change the manner of a repetition. -/
theorem unmarked_cons (hc : c ≠ '?' ∧ c ≠ '+') (ts : List Token) : Unmarked (.plain c :: ts) := by
  unfold Unmarked readManner
  split <;> simp_all

/-- What marks no row is no repetition. -/
theorem ne_of_not_mem_rowMarks (hc : c ∉ rowMarks) : c ≠ '?' ∧ c ≠ '+' := by
  constructor
  · intro heq
    subst heq
    exact hc (by decide)
  · intro heq
    subst heq
    exact hc (by decide)

/-- No text is read into an empty row. -/
theorem readsAs_nil [Host] : ReadsAs [] [] :=
  ⟨fun fuel _ _ _ _ => ⟨fuel, Nat.le_refl fuel, rfl⟩, fun _ hrest => hrest, rfl⟩

/-- Texts one after the other are read into one row. -/
theorem ReadsAs.append [Host] (hfirst : ReadsAs text row) (hsecond : ReadsAs other others) :
    ReadsAs (text ++ other) (row ++ others) := by
  refine ⟨fun fuel g nodes rest hrest => ?_, fun rest hrest => ?_, ?_⟩
  · obtain ⟨mid, hmid, hread⟩ :=
      hfirst.goesOn (fuel + other.length) g nodes _ (hsecond.unmarked rest hrest)
    obtain ⟨left, hleft, hread'⟩ :=
      hsecond.goesOn (mid - other.length) g (row.reverse ++ nodes) rest hrest
    rw [Nat.sub_add_cancel (by omega)] at hread'
    refine ⟨left, by omega, ?_⟩
    rw [length_append, Nat.add_comm text.length, ← Nat.add_assoc, map_append,
      append_assoc, hread, hread', reverse_append, append_assoc]
  · rw [map_append, append_assoc]
    exact hfirst.unmarked _ (hsecond.unmarked rest hrest)
  · rw [flatMap_append, hfirst.kept, hsecond.kept]

/-- A character that stands for itself. -/
theorem readsAs_literal [Host] (hrow : c ∉ rowMarks) (hatom : c ∉ atomMarks) :
    ReadsAs [c] [.literal c.toNat] := by
  refine ⟨fun fuel _ _ _ _ => ⟨fuel, Nat.le_refl fuel, readRow_literal hrow hatom⟩, ?_, rfl⟩
  intro rest _
  exact unmarked_cons (ne_of_not_mem_rowMarks hrow) rest

/-- Characters that stand for themselves. -/
theorem readsAs_literals [Host] {cs : List Char} (h : ∀ c ∈ cs, c ∉ rowMarks ∧ c ∉ atomMarks) :
    ReadsAs cs (cs.map fun c => .literal c.toNat) := by
  induction cs with
  | nil => exact readsAs_nil
  | cons c cs ih =>
    obtain ⟨hrow, hatom⟩ := h c mem_cons_self
    exact (readsAs_literal hrow hatom).append (ih fun d hd => h d (mem_cons_of_mem c hd))

/-- A repeated node, read from a first character and more. -/
theorem readsAs_repeat [Host] {first mark : Char} {n : Node} {bounds : Bounds}
    (hfirst : first ∉ rowMarks)
    (hatom : ∀ g rest, readAtom g (.plain first) (text.map .plain ++ rest) = .ok (n, rest))
    (hn : n.isRepeatable = true)
    (hmark : ∀ rest, readMark (.plain mark) rest = .ok (some (bounds, rest))) :
    ReadsAs (first :: (text ++ [mark])) [.loop .greedy bounds.1 bounds.2 n.unwrapped] := by
  refine ⟨fun fuel g nodes rest hrest => ⟨fuel + text.length, by omega, ?_⟩, ?_, rfl⟩
  · have hlength : fuel + (first :: (text ++ [mark])).length = fuel + text.length + 1 + 1 := by
      simp only [length_cons, length_append, length_nil]
      omega
    have htokens : (first :: (text ++ [mark])).map Token.plain ++ rest =
        .plain first :: (text.map .plain ++ .plain mark :: rest) := by
      simp
    rw [hlength, htokens, readRow_atom hfirst (hatom g _), readRow_repeat hn hrest (hmark rest)]
    rfl
  · intro rest _
    exact unmarked_cons (ne_of_not_mem_rowMarks hfirst) _

/-- A group without a capture is read into its contents. -/
theorem ReadsAs.readGroup [Host] (h : ReadsAs text row) (fuel : Nat) (g : Groups)
    (rest : List Token) : readGroup (fuel + text.length + 3) false g
        (.plain '?' :: .plain ':' :: (text.map .plain ++ .plain ')' :: rest)) =
      .ok (some (.group none none row), g, rest) := by
  have hclose : Unmarked (.plain ')' :: rest) := unmarked_cons (by decide) rest
  obtain ⟨left, hleft, hread⟩ := h.goesOn (fuel + 1) g [] _ hclose
  obtain ⟨left, rfl⟩ : ∃ more, left = more + 1 := ⟨left - 1, by omega⟩
  have hrow : readRow (left + 1) false g (row.reverse ++ []) (.plain ')' :: rest) =
      .ok (row, g, .plain ')' :: rest) := by
    simp [readRow, h.kept]
  rw [hrow, Nat.add_right_comm] at hread
  have hrows := readAlternatives_of_readRow hread (by simp)
  rw [Expression.readGroup]
  simp only [readGroupStart, verboseAfter, Option.elim_none, hrows, closeGroup, bind, Except.bind]
  rfl

/-- A group that may be left out. -/
theorem ReadsAs.optional [Host] (h : ReadsAs text row) :
    ReadsAs ("(?:".toList ++ (text ++ ")?".toList)) [.loop .greedy 0 (some 1) row] := by
  refine ⟨fun fuel g nodes rest hrest => ⟨fuel + text.length + 3, by omega, ?_⟩, ?_, rfl⟩
  · have hlength : fuel + ("(?:".toList ++ (text ++ ")?".toList)).length =
        fuel + text.length + 3 + 1 + 1 := by
      simp only [length_append, String.length_toList]
      show fuel + (3 + (text.length + 2)) = _
      omega
    have htokens : ("(?:".toList ++ (text ++ ")?".toList)).map Token.plain ++ rest =
        .plain '(' :: .plain '?' :: .plain ':' ::
          (text.map .plain ++ .plain ')' :: .plain '?' :: rest) := by
      simp
    have hgroup := h.readGroup (fuel + 1) g (.plain '?' :: rest)
    rw [Nat.add_right_comm fuel 1] at hgroup
    rw [hlength, htokens, readRow_group hgroup]
    exact @readRow_repeat _ g nodes rest _ (.group none none row) rfl hrest '?' (0, some 1) rfl
  · intro rest _
    exact unmarked_cons (by decide) _

/-- In a text without a backslash, every character is a token. -/
theorem tokens_of_plain {cs : List Char} (h : '\\' ∉ cs) : tokens cs = .ok (cs.map .plain) := by
  fun_induction tokens cs with
  | case1 => rfl
  | case2 => simp at h
  | case3 c rest ih => simp at h
  | case4 c rest _ _ ih =>
    rw [ih fun hmem => h (mem_cons_of_mem c hmem)]
    rfl

/-- A text between the marks for both ends. -/
theorem ReadsAs.read [Host] (h : ReadsAs text row) (hplain : '\\' ∉ text) :
    read ('^' :: (text ++ ['$'])) = .ok (.place .lineStart :: (row ++ [.place .lineEnd])) := by
  have htokens : tokens ('^' :: (text ++ ['$'])) =
      .ok (.plain '^' :: (text.map .plain ++ [.plain '$'])) := by
    rw [tokens_of_plain (by simp [hplain])]
    simp
  obtain ⟨left, hleft, hread⟩ := h.goesOn (2 * text.length + 7) {} [.place .lineStart] [.plain '$']
    (unmarked_cons (by decide) [])
  obtain ⟨left, rfl⟩ : ∃ more, left = more + 1 + 1 := ⟨left - 2, by omega⟩
  have hfuel : 3 * (Token.plain '^' :: (text.map .plain ++ [.plain '$'])).length + 3 =
      2 * text.length + 7 + text.length + 1 + 1 := by
    simp only [length_cons, length_append, length_map, length_nil]
    omega
  have hrow : readRow (2 * text.length + 7 + text.length + 1) false {} []
        (.plain '^' :: (text.map .plain ++ [.plain '$'])) =
      .ok (.place .lineStart :: (row ++ [.place .lineEnd]), {}, []) := by
    rw [readRow_atom (by decide) rfl, hread, readRow_atom (by decide) rfl, readRow]
    simp [h.kept, Node.unwrapped]
  have hrows := readAlternatives_of_readRow hrow (by simp)
  rw [← hfuel] at hrows
  simp only [Expression.read, htokens, hrows, bind, Except.bind]
  rfl

end SiteAtlas.Expression
