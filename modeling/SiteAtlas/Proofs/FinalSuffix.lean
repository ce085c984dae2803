import SiteAtlas.Proofs.FileRoutes
import SiteAtlas.Proofs.PreferredReading

/-!
# Source suffixes and index names at the end of a path text

Both are taken off only at the end of a text, or before a final line break, and at most once.
-/

namespace SiteAtlas

open List Pattern

variable {tail cs : List Char} {suffix : String}

/-- What may follow the last line: nothing, or its break. -/
def AfterLastLine (tail : List Char) : Prop :=
  tail = [] ∨ tail = ['\n']

/-- At the end of the last line only its break follows. -/
theorem afterLastLine_of_reaches {c d : Cursor} (h : lastLineEnd.Reaches c d) :
    AfterLastLine c.after := by
  simpa [AfterLastLine, Anchor.holds] using h.1

/-- The last line's end is read there. -/
theorem reads_lastLineEnd (h : AfterLastLine tail) : lastLineEnd.Reads [] tail [] := by
  intro c hc
  have hholds : Anchor.lastLineEnd.holds c.toSpot = true := by
    simpa [AfterLastLine, Anchor.holds, hc] using h
  exact ⟨c, fun k _ => by rw [lastLineEnd, run, if_pos hholds], ⟨rfl, rfl⟩, rfl⟩

/-- A lone match near the end of a text is taken off. -/
theorem Pattern.eraseAll_last {p : Pattern} {body text : List Char}
    {captured : List (Nat × List Char)} (htext : p.Reads text tail captured) (hne : text ≠ [])
    (hbody : ∀ u, u <:+ body → u ≠ [] → p.FailsAt (u ++ (text ++ tail)))
    (htail : ∀ u, u <:+ tail → u ≠ [] → p.FailsAt u) :
    p.eraseAll (body ++ (text ++ tail)) = body ++ tail := by
  obtain ⟨m, hmatch, hread, -⟩ := htext.exists_matchAt (body.reverse ++ []) (0 + body.length)
  have hlast (before : List Char) (offset : Nat) :
      p.piecesFrom 0 before offset (tail ++ []) = tail.map .plain ++ [] :=
    piecesFrom_of_failsAt (fun u hu hne => by simpa using htail u hu hne) before offset
  rw [append_nil, append_nil] at hlast
  rw [eraseAll, replaceAll, pieces, piecesFrom_of_failsAt hbody, piecesFrom_hit hne hmatch hread,
    hlast, flatMap_append, flatMap_cons, flatMap_map, flatMap_map]
  simp

/-- A source suffix is last, or before the final break. -/
def EndsInSuffix (cs : List Char) : Prop :=
  ∃ body, ∃ suffix ∈ Tree.sourceSuffixes, ∃ tail, AfterLastLine tail ∧
    cs = body ++ (suffix.toList ++ tail)

/-- After a final suffix the text ends. -/
theorem after_of_reaches_finalSuffix {c d : Cursor} (h : finalSuffix.Reaches c d) :
    ∃ suffix ∈ Tree.sourceSuffixes, ∃ tail,
      AfterLastLine tail ∧ c.after = suffix.toList ++ tail := by
  have hoptional {e f : Cursor} (h : (optional (char 'x')).Reaches e f) :
      e.Past [] f ∨ e.Past ['x'] f := by
    rcases reaches_optional h with rfl | hread
    · exact .inl ⟨rfl, rfl⟩
    · obtain ⟨x, hx, hpast, -⟩ := Cursor.past_of_read? hread
      obtain rfl := beq_iff_eq.mp hx
      exact .inr hpast
  obtain ⟨e, ⟨first, hpoint, hname⟩, hend⟩ := h
  obtain ⟨x, hx, hfirst, -⟩ := Cursor.past_of_read? hpoint
  obtain rfl := beq_iff_eq.mp hx
  have hlast := afterLastLine_of_reaches hend
  rcases hname with ⟨second, htext, hmore⟩ | ⟨second, htext, hmore⟩
  all_goals
    have hsecond := hfirst.trans (past_of_reaches_chars htext)
    rcases hoptional hmore with hmore | hmore
    all_goals
      have hafter := (hsecond.trans hmore).after
  · exact ⟨".ts", by decide, e.after, hlast, hafter⟩
  · exact ⟨".tsx", by decide, e.after, hlast, hafter⟩
  · exact ⟨".js", by decide, e.after, hlast, hafter⟩
  · exact ⟨".jsx", by decide, e.after, hlast, hafter⟩

/-- A final suffix is read. -/
theorem reads_finalSuffix (h : suffix ∈ Tree.sourceSuffixes) (htail : AfterLastLine tail) :
    finalSuffix.Reads suffix.toList tail [] := by
  have hend := reads_lastLineEnd htail
  have hnone : (optional (char 'x')).Reads [] tail [] := by
    have hbegins : (char 'x').Begins (· == 'x') := fun x hx => hx
    refine (hbegins.failsAt ?_).optional
    rcases htail with rfl | rfl <;> rfl
  have hfails (more : List Char) :
      (Pattern.text "ts" ++ optional (char 'x')).FailsAt ('j' :: more) := by
    have hbegins : (Pattern.text "ts" ++ optional (char 'x')).Begins (· == 't') := fun x hx => hx
    exact hbegins.failsAt rfl
  simp only [Tree.sourceSuffixes, mem_cons, not_mem_nil, or_false] at h
  rcases h with rfl | rfl | rfl | rfl
  · exact ((reads_char '.' _).seq
      ((reads_text "ts" _).seq (reads_char 'x' _).optional).either_left).seq hend
  · exact ((reads_char '.' _).seq ((reads_text "ts" _).seq hnone).either_left).seq hend
  · exact ((reads_char '.' _).seq (((reads_text "js" _).seq
      (reads_char 'x' _).optional).either_right (hfails ("sx".toList ++ tail)))).seq hend
  · exact ((reads_char '.' _).seq (((reads_text "js" _).seq hnone).either_right
      (hfails ("s".toList ++ tail)))).seq hend

/-- A suffix has two characters or more. -/
theorem one_lt_length_sourceSuffix (h : suffix ∈ Tree.sourceSuffixes) :
    1 < suffix.toList.length := by
  revert suffix
  decide

/-- A source suffix has one point, first, and no slashes. -/
theorem exists_cons_of_mem_sourceSuffixes (h : suffix ∈ Tree.sourceSuffixes)
    (htail : AfterLastLine tail) :
    ∃ rest, suffix.toList ++ tail = '.' :: rest ∧ '.' ∉ rest ∧ '/' ∉ rest ∧ '\\' ∉ rest := by
  simp only [Tree.sourceSuffixes, mem_cons, not_mem_nil, or_false] at h
  rcases htail with rfl | rfl
  all_goals
    rcases h with rfl | rfl | rfl | rfl
    · exact ⟨"tsx".toList ++ _, rfl, by simp⟩
    · exact ⟨"ts".toList ++ _, rfl, by simp⟩
    · exact ⟨"jsx".toList ++ _, rfl, by simp⟩
    · exact ⟨"js".toList ++ _, rfl, by simp⟩

/-- A final suffix is removed. -/
theorem eraseAll_finalSuffix (body : List Char) (h : suffix ∈ Tree.sourceSuffixes)
    (htail : AfterLastLine tail) :
    finalSuffix.eraseAll (body ++ (suffix.toList ++ tail)) = body ++ tail := by
  obtain ⟨rest, hrest, -⟩ := exists_cons_of_mem_sourceSuffixes h htail
  refine eraseAll_last (reads_finalSuffix h htail) ?_ ?_ ?_
  · exact ne_nil_of_length_pos (Nat.lt_of_succ_lt (one_lt_length_sourceSuffix h))
  · -- An earlier suffix would have to end before the point of the last one.
    rintro u - hne c d hc hreach
    obtain ⟨x, others, rfl⟩ := exists_cons_of_ne_nil hne
    obtain ⟨other, hother, end', hend, hafter⟩ := after_of_reaches_finalSuffix hreach
    obtain ⟨after, hpoint, hfree, -⟩ := exists_cons_of_mem_sourceSuffixes hother hend
    have hsame : x :: others ++ (suffix.toList ++ tail) = '.' :: after :=
      hc.symm.trans (hafter.trans hpoint)
    obtain ⟨-, rfl⟩ := List.cons.inj hsame
    exact hfree (by simp [hrest])
  · intro u hu hne
    have hbegins : finalSuffix.Begins (· == '.') := fun x hx => hx
    refine hbegins.failsAt ?_
    obtain ⟨x, others, rfl⟩ := exists_cons_of_ne_nil hne
    have hx : x ∈ tail := hu.mem mem_cons_self
    rcases htail with rfl | rfl
    · cases hx
    · obtain rfl := mem_singleton.mp hx
      rfl

/-- Without a final suffix there is nothing to take off. -/
theorem eraseAll_finalSuffix_eq_self (h : ¬ EndsInSuffix cs) : finalSuffix.eraseAll cs = cs := by
  refine eraseAll_of_failsAt ?_
  rintro u ⟨body, rfl⟩ - c d rfl hreach
  obtain ⟨suffix, hsuffix, tail, htail, hafter⟩ := after_of_reaches_finalSuffix hreach
  exact h ⟨body, suffix, hsuffix, tail, htail, by rw [hafter]⟩

/-- A path text with slashes for its backslashes. -/
def slashed (cs : List Char) : List Char :=
  cs.map fun c => if c = '\\' then '/' else c

/-- Parts of a text are written with slashes one by one. -/
theorem slashed_append (a b : List Char) : slashed (a ++ b) = slashed a ++ slashed b :=
  map_append

/-- Without backslashes nothing changes. -/
theorem slashed_of_not_mem (h : '\\' ∉ cs) : slashed cs = cs := by
  rw [slashed, map_congr_left (g := id), map_id]
  rintro c hc
  refine if_neg ?_
  rintro rfl
  exact h hc

/-- Where no slash was put, nothing has changed. -/
theorem eq_of_slashed_eq {ds : List Char} (h : slashed cs = ds) (hds : '/' ∉ ds) : cs = ds := by
  rw [← h]
  refine (slashed_of_not_mem fun hmem => hds ?_).symm
  rw [← h]
  exact mem_map.mpr ⟨'\\', hmem, rfl⟩

/-- Slashes do not change the suffix. -/
theorem EndsInSuffix.slashed {cs : List Char} (h : EndsInSuffix cs) :
    EndsInSuffix (slashed cs) := by
  obtain ⟨body, suffix, hsuffix, tail, htail, rfl⟩ := h
  obtain ⟨rest, hrest, -, -, hfree⟩ := exists_cons_of_mem_sourceSuffixes hsuffix htail
  have hsame : SiteAtlas.slashed (suffix.toList ++ tail) = suffix.toList ++ tail :=
    slashed_of_not_mem (by simpa [hrest] using hfree)
  exact ⟨SiteAtlas.slashed body, suffix, hsuffix, tail, htail, by rw [slashed_append, hsame]⟩

/-- What stands before a source suffix is left. -/
theorem withoutSuffix_append (body : List Char) (h : suffix ∈ Tree.sourceSuffixes)
    (htail : AfterLastLine tail) :
    withoutSuffix (body ++ (suffix.toList ++ tail)) = slashed body ++ tail := by
  have hsame : slashed (suffix.toList ++ tail) = suffix.toList ++ tail := by
    obtain ⟨rest, hrest, -, -, hfree⟩ := exists_cons_of_mem_sourceSuffixes h htail
    exact slashed_of_not_mem (by simpa [hrest] using hfree)
  calc withoutSuffix (body ++ (suffix.toList ++ tail))
      = finalSuffix.eraseAll (slashed (body ++ (suffix.toList ++ tail))) := rfl
    _ = slashed body ++ tail := by
        rw [slashed_append, hsame, eraseAll_finalSuffix (slashed body) h htail]

/-- Something is taken off a text that ends in a source suffix. -/
theorem EndsInSuffix.length_withoutSuffix (h : EndsInSuffix cs) :
    (withoutSuffix cs).length < (SiteAtlas.slashed cs).length := by
  obtain ⟨body, suffix, hsuffix, tail, htail, rfl⟩ := h
  have hlength := one_lt_length_sourceSuffix hsuffix
  rw [withoutSuffix_append body hsuffix htail, slashed_append, length_append, length_append]
  simp only [SiteAtlas.slashed, length_map, length_append]
  omega

/-- Backslashes cannot hide a source suffix. -/
theorem EndsInSuffix.of_slashed (h : EndsInSuffix (SiteAtlas.slashed cs)) : EndsInSuffix cs := by
  obtain ⟨body, suffix, hsuffix, tail, htail, heq⟩ := h
  obtain ⟨front, last, rfl, -, hlast⟩ := map_eq_append_iff.mp heq
  obtain ⟨rest, hrest, -, hfree, -⟩ := exists_cons_of_mem_sourceSuffixes hsuffix htail
  have hsame : last = suffix.toList ++ tail := eq_of_slashed_eq hlast (by simpa [hrest] using hfree)
  exact ⟨front, suffix, hsuffix, tail, htail, by rw [hsame]⟩

/-- A text that does not end in a source suffix is left whole. -/
theorem withoutSuffix_of_not_endsInSuffix (h : ¬ EndsInSuffix cs) : withoutSuffix cs = slashed cs :=
  eraseAll_finalSuffix_eq_self fun hends => h hends.of_slashed

/-- A final index name is read where it is all that is left. -/
theorem after_of_reaches_finalIndex {c d : Cursor} (h : finalIndex.Reaches c d) :
    ∃ tail, AfterLastLine tail ∧ c.after = "/index".toList ++ tail := by
  obtain ⟨e, htext, hend⟩ := h
  exact ⟨e.after, afterLastLine_of_reaches hend, (past_of_reaches_chars htext).after⟩

/-- A final `/index` is removed. -/
theorem eraseAll_finalIndex (body : List Char) :
    finalIndex.eraseAll (body ++ "/index".toList) = body := by
  have hreads : finalIndex.Reads ("/index".toList ++ []) [] ([] ++ []) :=
    (reads_text "/index" _).seq (reads_lastLineEnd (.inl rfl))
  rw [append_nil] at hreads
  have herase : finalIndex.eraseAll (body ++ ("/index".toList ++ [])) = body ++ [] := by
    refine eraseAll_last hreads (by decide) ?_ (by simp)
    -- An earlier index name would have to go on past the slash of the last one.
    rintro u - hne c d hc hreach
    obtain ⟨x, others, rfl⟩ := exists_cons_of_ne_nil hne
    obtain ⟨tail, htail, hafter⟩ := after_of_reaches_finalIndex hreach
    have hsame : x :: (others ++ ("/index".toList ++ [])) = '/' :: ("index".toList ++ tail) :=
      hc.symm.trans hafter
    have hslash : '/' ∈ "index".toList ++ tail := by
      rw [← (List.cons.inj hsame).2]
      simp
    rcases htail with rfl | rfl <;> simp at hslash
  simpa using herase

/-- Without a final index name there is nothing to take off. -/
theorem eraseAll_finalIndex_eq_self
    (h : ∀ body tail, AfterLastLine tail → cs ≠ body ++ ("/index".toList ++ tail)) :
    finalIndex.eraseAll cs = cs := by
  refine eraseAll_of_failsAt ?_
  rintro u ⟨front, rfl⟩ - c d rfl hreach
  obtain ⟨tail, htail, hafter⟩ := after_of_reaches_finalIndex hreach
  exact h front tail htail (by rw [hafter])

/-- With a suffix, no `/index` is final. -/
theorem EndsInSuffix.eraseAll_finalIndex (h : EndsInSuffix cs) : finalIndex.eraseAll cs = cs := by
  refine eraseAll_finalIndex_eq_self fun front other hother heq => ?_
  obtain ⟨body, suffix, hsuffix, tail, htail, rfl⟩ := h
  have hreverse := congrArg List.reverse heq
  simp only [Tree.sourceSuffixes, mem_cons, not_mem_nil, or_false] at hsuffix
  rcases htail with rfl | rfl <;> rcases hother with rfl | rfl <;>
    rcases hsuffix with rfl | rfl | rfl | rfl <;> simp at hreverse

end SiteAtlas
