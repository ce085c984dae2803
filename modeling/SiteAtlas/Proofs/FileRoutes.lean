import SiteAtlas.Proofs.CandidateFiles
import SiteAtlas.Proofs.Reading

/-!
# Routes of nested files

The route of a file is spelled by its path below the routing directory, without the suffix at the
very end. The segments of a path are those of the directory and those of the rest, so seen from
further up a file never has a shorter route.
-/

namespace SiteAtlas

/-- A row of characters that is skipped gives no pieces. -/
theorem Pattern.piecesFrom_length (p : Pattern) (before : List Char) (offset : Nat)
    (cs : List Char) : p.piecesFrom cs.length before offset cs = [] := by
  induction cs generalizing before offset with
  | nil => rfl
  | cons c rest ih => exact ih (c :: before) (offset + 1)

/-- A file name is its stem followed by its suffix. -/
theorem splitSuffix_append (name : List Char) :
    (splitSuffix name).1 ++ (splitSuffix name).2 = name := by
  unfold splitSuffix
  dsimp only
  split
  · exact List.append_nil name
  · next hsplit =>
    set last := name.reverse.takeWhile (· != '.') with hlast
    have hname : name.reverse = last ++ name.reverse.dropWhile (· != '.') :=
      (List.takeWhile_append_dropWhile).symm
    cases hrest : name.reverse.dropWhile (· != '.') with
    | nil =>
      -- Without a point the whole name stands after the last point.
      rw [hrest, List.append_nil] at hname
      rw [← hname] at hsplit
      simp at hsplit
    | cons point before =>
      have hpoint : point = '.' := by
        have hhead := List.head_dropWhile_not (p := (· != '.')) (l := name.reverse)
          (by simp [hrest])
        simpa [hrest] using hhead
      rw [hrest, hpoint] at hname
      have hwhole : name = before.reverse ++ '.' :: last.reverse := by
        have h := congrArg List.reverse hname
        simpa using h
      have hlength : name.length - last.reverse.length - 1 = before.reverse.length := by
        rw [hwhole]
        simp
        omega
      rw [hlength]
      conv_lhs => rw [hwhole]
      conv_rhs => rw [hwhole]
      rw [List.take_left]

/-- A name with a suffix has a stem. -/
theorem stem_ne_nil_of_suffix {name : List Char} (h : (splitSuffix name).2 ≠ []) :
    (splitSuffix name).1 ≠ [] := by
  unfold splitSuffix at h ⊢
  dsimp only at h ⊢
  split at h
  · exact absurd rfl h
  · next hsplit =>
    rw [if_neg hsplit]
    simp only [Bool.or_eq_true, not_or, List.isEmpty_iff] at hsplit
    exact hsplit.2

namespace Route

/-- A path text that ends in the suffix of a source file. -/
def IsSource (path : List Char) : Prop :=
  ∃ body, ∃ suffix ∈ Tree.sourceSuffixes, path = body ++ suffix.toList

/-- A suffix is read from a point on, with no other point. -/
theorem after_of_reaches_sourceSuffix (c d : Cursor) (h : sourceSuffix.Reaches c d) :
    ∃ rest, c.after = '.' :: rest ∧ '.' ∉ rest := by
  obtain ⟨e, ⟨first, hpoint, htext⟩, hend, -⟩ := h
  obtain ⟨x, hx, hpast, -⟩ := Cursor.past_of_read? hpoint
  obtain rfl : x = '.' := by simpa using hx
  have hplain : (Pattern.texts ["tsx", "ts", "jsx", "js"]).ReadsOnly (· ≠ '.') := by
    rw [Pattern.readsOnly_texts]
    simp
  obtain ⟨text, htext, hof⟩ := hplain.pastOnly _ first e htext
  refine ⟨text ++ e.after, by rw [hpast.after, htext.after]; rfl, ?_⟩
  intro hmem
  rcases List.mem_append.mp hmem with hmem | hmem
  · exact hof '.' hmem rfl
  · have hafter : e.after = [] ∨ e.after = ['\n'] := by simpa [Anchor.holds] using hend
    rcases hafter with hafter | hafter <;> simp [hafter] at hmem

/-- A source suffix is matched at the end. -/
theorem matchAt_sourceSuffix (before : List Char) (offset : Nat) (suffix : String)
    (h : suffix ∈ Tree.sourceSuffixes) :
    sourceSuffix.matchAt before offset suffix.toList = some ⟨offset, suffix.toList, []⟩ := by
  have hrun : ∃ past, sourceSuffix.run ⟨⟨before, suffix.toList, offset⟩, []⟩ some =
      some ⟨⟨past, [], offset + suffix.toList.length⟩, []⟩ := by
    simp only [Tree.sourceSuffixes, List.mem_cons, List.not_mem_nil, or_false] at h
    rcases h with rfl | rfl | rfl | rfl <;> exact ⟨_, rfl⟩
  obtain ⟨past, hrun⟩ := hrun
  simp [Pattern.matchAt, hrun]

/-- Leaving out the suffix leaves what is before it. -/
theorem eraseAll_sourceSuffix (body : List Char) (suffix : String)
    (h : suffix ∈ Tree.sourceSuffixes) : sourceSuffix.eraseAll (body ++ suffix.toList) = body := by
  have hpoint : '.' ∈ suffix.toList := by
    revert suffix
    decide
  have hpieces (before : List Char) (offset : Nat) :
      sourceSuffix.piecesFrom 0 before offset (body ++ suffix.toList) =
        body.map .plain ++ [.hit ⟨offset + body.length, suffix.toList, []⟩] := by
    induction body generalizing before offset with
    | nil =>
      obtain ⟨first, rest, hsuffix⟩ := List.exists_cons_of_ne_nil (List.ne_nil_of_mem hpoint)
      have hmatch := matchAt_sourceSuffix before offset suffix h
      rw [hsuffix] at hmatch
      rw [List.nil_append, hsuffix, Pattern.piecesFrom, hmatch]
      simp [Pattern.piecesFrom_length]
    | cons c rest ih =>
      -- An earlier suffix would have to end before the point of the last one.
      have hnone : sourceSuffix.matchAt before offset (c :: (rest ++ suffix.toList)) = none := by
        rw [Option.eq_none_iff_forall_ne_some]
        intro m hm
        obtain ⟨d, hreach, -⟩ := Pattern.reaches_of_matchAt _ _ _ _ m hm
        obtain ⟨after, hafter, hfree⟩ := after_of_reaches_sourceSuffix _ d hreach
        obtain ⟨-, rfl⟩ := List.cons.inj hafter
        exact hfree (List.mem_append_right rest hpoint)
      rw [List.cons_append, Pattern.piecesFrom, hnone]
      simp [ih, Nat.add_assoc, Nat.add_comm 1]
  rw [Pattern.eraseAll, Pattern.replaceAll, Pattern.pieces, hpieces]
  simp [List.flatMap_map]

end Route

/-- A split goes on after a separator. -/
theorem Text.splitOn_append_cons (separator : Char) (a b : List Char) :
    Text.splitOn separator (a ++ separator :: b) =
      Text.splitOn separator a ++ Text.splitOn separator b := by
  induction a with
  | nil => simp [Text.splitOn]
  | cons c rest ih =>
    rw [List.cons_append, Text.splitOn, Text.splitOn, ih]
    split
    · rfl
    · cases hparts : Text.splitOn separator rest with
      | nil => exact absurd hparts (Text.splitOn_ne_nil separator rest)
      | cons part parts => rfl

/-- More parts make the joined text no shorter. -/
theorem Text.length_join_le (separator : List Char) (outer inner : List (List Char)) :
    (Text.join separator inner).length ≤ (Text.join separator (outer ++ inner)).length := by
  induction outer with
  | nil => exact Nat.le_refl _
  | cons part outer ih =>
    cases hparts : outer ++ inner with
    | nil => simp [(List.append_eq_nil_iff.mp hparts).2, Text.join]
    | cons next others =>
      rw [hparts] at ih
      rw [List.cons_append, hparts, Text.join, List.length_append]
      · omega
      · simp

namespace Route

/-- Segments do not show the suffix. -/
theorem pathSegments_append_suffix (body : List Char) (suffix : String)
    (h : suffix ∈ Tree.sourceSuffixes) : pathSegments (body ++ suffix.toList) =
      (Text.splitOn '/' (body.map fun c => if c = '\\' then '/' else c)).filter (!·.isEmpty) := by
  have hsame : suffix.toList.map (fun c => if c = '\\' then '/' else c) = suffix.toList := by
    revert suffix
    decide
  rw [pathSegments, List.map_append, hsame, eraseAll_sourceSuffix _ suffix h]

/-- Segments below are the last ones. -/
theorem exists_pathSegments_below (outer inner : List Char) (h : IsSource inner) :
    ∃ above, pathSegments (outer ++ '/' :: inner) = above ++ pathSegments inner := by
  obtain ⟨body, suffix, hsuffix, rfl⟩ := h
  refine ⟨(Text.splitOn '/' (outer.map fun c => if c = '\\' then '/' else c)).filter (!·.isEmpty),
    ?_⟩
  rw [← List.cons_append, ← List.append_assoc, pathSegments_append_suffix _ suffix hsuffix,
    pathSegments_append_suffix _ suffix hsuffix, List.map_append, List.map_cons, if_neg (by decide),
    Text.splitOn_append_cons, List.filter_append]

/-- Counted segments stay so below further directories. -/
theorem exists_countedSegments_append (router : Router) (outer inner : List (List Char))
    (h : inner ≠ []) :
    ∃ above, countedSegments router (outer ++ inner) = above ++ countedSegments router inner := by
  have hindex : withoutIndexName router (outer ++ inner) =
      outer ++ withoutIndexName router inner := by
    have hlast := List.getLast?_eq_some_getLast h
    rw [withoutIndexName, withoutIndexName, List.getLast?_append, hlast]
    dsimp only [Option.some_or]
    split
    · exact List.dropLast_append_of_ne_nil h
    · rfl
  exact ⟨_, by rw [countedSegments, hindex, List.filter_append, countedSegments]⟩

/-- Seen from further up, a file has no shorter route. -/
theorem length_ofFilePath_le (router : Router) (outer inner : List Char) (h : IsSource inner) :
    (ofFilePath inner router).length ≤ (ofFilePath (outer ++ '/' :: inner) router).length := by
  obtain ⟨above, habove⟩ := exists_pathSegments_below outer inner h
  rw [ofFilePath, ofFilePath, habove, List.length_cons, List.length_cons]
  refine Nat.succ_le_succ ?_
  by_cases hnone : pathSegments inner = []
  · rw [hnone]
    exact Nat.zero_le _
  · obtain ⟨counted, hcounted⟩ := exists_countedSegments_append router above _ hnone
    rw [hcounted, List.map_append]
    exact Text.length_join_le _ _ _

end Route

end SiteAtlas
