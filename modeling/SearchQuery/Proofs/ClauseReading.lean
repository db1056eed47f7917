import SearchQuery.Proofs.CleanQuery

/-!
# Reading clause trees back

The query string of a clean query determines its clause tree.  `map_ofWord_itemTexts` reads the
items of one composition, `ofWords_text` is the induction over queries, and `read_emitWith` the
result.
-/

namespace SearchQuery

open Text

namespace Query

/-! ## Reading items -/

theorem signedItems_eq_map (fuzziness : UInt32) (sign : Sign) (queries : List Query) :
    signedItems fuzziness sign queries = queries.map fun query =>
      if query.kind = .bool then .group sign [query.clauseTree fuzziness]
      else .leaf sign (query.text fuzziness) := by
  induction queries with
  | nil => rfl
  | cons query rest ih => rw [signedItems, ih, toList_emitWith, List.map_cons]

theorem clauseTrees_eq_map (fuzziness : UInt32) (queries : List Query) :
    clauseTrees fuzziness queries = queries.map (clauseTree fuzziness) := by
  induction queries with
  | nil => rfl
  | cons query rest ih => rw [clauseTrees, ih, List.map_cons]

section Reading

variable {entry : List (List Char) → ClauseTree} {fuzziness : UInt32}

theorem ofBody_of_not_startsItem {text : List Char} (h : startsItem text = false) (sign : Sign) :
    Item.ofBody entry sign text = .leaf sign text := by
  unfold Item.ofBody
  split
  · exact nomatch h
  · rfl

/-- A group of clean alternatives is read one alternative after another. -/
theorem ofBody_parenthesized {queries : List Query}
    (hclean : ∀ query ∈ queries, query.isClean = true) (hne : queries ≠ []) (sign : Sign) :
    Item.ofBody entry sign (parenthesized (alternatives (queries.map (text fuzziness)))) =
      .group sign (queries.map fun query => entry (words (query.text fuzziness))) := by
  have hsplit : (words (alternatives (queries.map (text fuzziness)))).splitOn orWord =
      (queries.map (text fuzziness)).map words := by
    refine splitOn_words_alternatives ?_ (by simpa using hne) ?_ <;> intro t ht <;>
      obtain ⟨query, hmem, rfl⟩ := List.mem_map.mp ht
    · exact closed_text (isLegible_of_isClean (hclean query hmem)) fuzziness
    · exact orWord_not_mem_words_text (isLegible_of_isClean (hclean query hmem)) fuzziness
  rw [parenthesized, Item.ofBody, List.dropLast_concat, hsplit, List.map_map, List.map_map]
  rfl

theorem ofBody_clauseText {query : Query} (hclean : query.isClean = true)
    (hentry : entry (words (query.text fuzziness)) = query.clauseTree fuzziness) (sign : Sign) :
    Item.ofBody entry sign (query.clauseText fuzziness) =
      if query.kind = .bool then .group sign [query.clauseTree fuzziness]
      else .leaf sign (query.text fuzziness) := by
  unfold clauseText
  split
  · have hgroup := @ofBody_parenthesized entry fuzziness [query] (by simp [hclean])
      (List.cons_ne_nil _ _) sign
    simpa [alternatives, hentry] using hgroup
  · rename_i hleaf
    have hfield := isFieldText_text hleaf (isLegible_of_isClean hclean) fuzziness
    exact ofBody_of_not_startsItem hfield.startsItem_eq sign

/-- The items of a composition are read as the items of its tree, if its clauses are read as their
trees. -/
theorem map_ofWord_itemTexts {must filter mustNot should : List Query} {minimum : Option Int32}
    (hclean : (bool must filter mustNot should minimum).isClean = true)
    (hmust : ∀ query ∈ must, entry (words (query.text fuzziness)) = query.clauseTree fuzziness)
    (hfilter : ∀ query ∈ filter,
      entry (words (query.text fuzziness)) = query.clauseTree fuzziness)
    (hmustNot : ∀ query ∈ mustNot,
      entry (words (query.text fuzziness)) = query.clauseTree fuzziness)
    (hshould : ∀ query ∈ should,
      entry (words (query.text fuzziness)) = query.clauseTree fuzziness) :
    .items ((itemTexts fuzziness must filter mustNot should).map (Item.ofWord entry)) =
      (bool must filter mustNot should minimum).clauseTree fuzziness := by
  obtain ⟨cmust, cfilter, cmustNot, cshould⟩ := isTidy_bool.mp hclean
  have hsigned : (signedTexts fuzziness must filter mustNot).map (Item.ofWord entry) =
      signedItems fuzziness .required must ++ signedItems fuzziness .required filter ++
        signedItems fuzziness .prohibited mustNot := by
    simp only [signedTexts, List.map_append, List.map_map, signedItems_eq_map]
    congr 1
    · congr 1
      · refine List.map_congr_left fun query hmem => ?_
        exact ofBody_clauseText (cmust query hmem) (hmust query hmem) .required
      · refine List.map_congr_left fun query hmem => ?_
        exact ofBody_clauseText (cfilter query hmem) (hfilter query hmem) .required
    · refine List.map_congr_left fun query hmem => ?_
      exact ofBody_clauseText (cmustNot query hmem) (hmustNot query hmem) .prohibited
  have hempty : signedTexts fuzziness must filter mustNot = [] ↔
      must = [] ∧ filter = [] ∧ mustNot = [] := by
    simp [signedTexts]
  rw [clauseTree, itemTexts, List.map_append, hsigned]
  congr 2
  by_cases hnone : should = []
  · simp [optionalGroup, hnone]
  · have hgroup := @ofBody_parenthesized entry fuzziness should cshould hnone
    have htrees : (should.map fun query => entry (words (query.text fuzziness))) =
        clauseTrees fuzziness should := by
      rw [clauseTrees_eq_map]
      exact List.map_congr_left hshould
    rw [optionalGroup, if_neg (by simpa using hnone), if_neg hnone]
    by_cases hsign : must = [] ∧ filter = [] ∧ mustNot = []
    · rw [if_pos (hempty.mpr hsign), if_pos hsign, ← htrees]
      exact congrArg (fun item => [item]) (hgroup .optional)
    · rw [if_neg (fun h => hsign (hempty.mp h)), if_neg hsign, ← htrees]
      exact congrArg (fun item => [item]) (hgroup .required)

end Reading

/-! ## Reading query strings -/

theorem length_text_le_length_clauseText (query : Query) (fuzziness : UInt32) :
    (query.text fuzziness).length ≤ (query.clauseText fuzziness).length := by
  unfold clauseText
  split
  · simp only [parenthesized, List.length_cons, List.length_append]
    omega
  · exact Nat.le_refl _

/-- A clause has a shorter text than the composition it stands in: there is a sign or a parenthesis
about it. -/
theorem length_text_lt {must filter mustNot should : List Query} {minimum : Option Int32}
    {query : Query} (h : query ∈ must ++ filter ++ mustNot ++ should) (fuzziness : UInt32) :
    (query.text fuzziness).length <
      ((bool must filter mustNot should minimum).text fuzziness).length := by
  suffices hitem : ∃ item ∈ itemTexts fuzziness must filter mustNot should,
      (query.text fuzziness).length < item.length by
    obtain ⟨item, hmem, hlt⟩ := hitem
    rw [text_bool]
    exact Nat.lt_of_lt_of_le hlt (length_le_of_mem_intercalate hmem)
  have hsign : ∀ sign : Char,
      (query.text fuzziness).length < (sign :: query.clauseText fuzziness).length :=
    fun _ => Nat.lt_succ_of_le (length_text_le_length_clauseText query fuzziness)
  simp only [List.mem_append] at h
  rcases h with ((h | h) | h) | h
  · refine ⟨_, List.mem_append_left _ ?_, hsign '+'⟩
    exact List.mem_append_left _ (List.mem_append_left _ (List.mem_map_of_mem h))
  · refine ⟨_, List.mem_append_left _ ?_, hsign '+'⟩
    exact List.mem_append_left _ (List.mem_append_right _ (List.mem_map_of_mem h))
  · refine ⟨_, List.mem_append_left _ ?_, hsign '-'⟩
    exact List.mem_append_right _ (List.mem_map_of_mem h)
  · have hgroup : (query.text fuzziness).length <
        (parenthesized (alternatives (should.map (text fuzziness)))).length := by
      have hle := @length_le_of_mem_intercalate " OR ".toList (query.text fuzziness) _
        (List.mem_map_of_mem h)
      simp only [parenthesized, alternatives, List.length_cons, List.length_append]
      omega
    have hne : should.map (text fuzziness) ≠ [] :=
      List.ne_nil_of_mem (List.mem_map_of_mem h)
    rw [itemTexts, optionalGroup, if_neg hne]
    split
    · exact ⟨_, List.mem_append_right _ List.mem_cons_self, hgroup⟩
    · exact ⟨_, List.mem_append_right _ List.mem_cons_self, Nat.lt_succ_of_lt hgroup⟩

theorem clauseTree_of_kind_ne {query : Query} (hleaf : query.kind ≠ .bool)
    (fuzziness : UInt32) : query.clauseTree fuzziness = .leaf (query.text fuzziness) := by
  cases query with
  | bool => exact absurd rfl hleaf
  | _ =>
    rw [clauseTree, toList_emitWith]
    exact nofun

end Query

/-- The words of a clean query are read as its tree, if the reader goes down far enough. -/
theorem ofWords_text {query : Query} (hclean : query.isClean = true) (fuzziness : UInt32)
    {levels : Nat} (hlevels : (query.text fuzziness).length < levels) :
    ClauseTree.ofWords levels (words (query.text fuzziness)) = query.clauseTree fuzziness := by
  induction query using Query.induction generalizing levels with
  | leaf query hleaf =>
    have hfield := Query.isFieldText_text hleaf (Query.isLegible_of_isClean hclean) fuzziness
    obtain ⟨levels, rfl⟩ := Nat.exists_eq_succ_of_ne_zero (Nat.ne_zero_of_lt hlevels)
    have hne : query.text fuzziness ≠ [] := List.ne_nil_of_mem hfield.colon_mem
    rw [hfield.solid.words_eq, Query.clauseTree_of_kind_ne hleaf,
      ClauseTree.ofWords, if_neg (by simpa using hne), if_neg (by simp [hfield.startsItem_eq])]
    simp [spaceSeparated]
  | bool must filter mustNot should minimum hmust hfilter hmustNot hshould =>
    obtain ⟨levels, rfl⟩ := Nat.exists_eq_succ_of_ne_zero (Nat.ne_zero_of_lt hlevels)
    have hread : ∀ query ∈ must ++ filter ++ mustNot ++ should,
        ClauseTree.ofWords levels (words (query.text fuzziness)) =
          query.clauseTree fuzziness := by
      intro query hmem
      have hlt : (query.text fuzziness).length < levels :=
        Nat.lt_of_lt_of_le (Query.length_text_lt hmem fuzziness) (Nat.le_of_lt_succ hlevels)
      obtain ⟨cmust, cfilter, cmustNot, cshould⟩ := Query.isTidy_bool.mp hclean
      simp only [List.mem_append] at hmem
      rcases hmem with ((hmem | hmem) | hmem) | hmem
      · exact hmust query hmem (cmust query hmem) hlt
      · exact hfilter query hmem (cfilter query hmem) hlt
      · exact hmustNot query hmem (cmustNot query hmem) hlt
      · exact hshould query hmem (cshould query hmem) hlt
    simp only [List.mem_append, or_assoc, or_imp, forall_and] at hread
    obtain ⟨rmust, rfilter, rmustNot, rshould⟩ := hread
    rw [← Query.map_ofWord_itemTexts hclean rmust rfilter rmustNot rshould,
      Query.words_text_bool (Query.isLegible_of_isClean hclean)]
    by_cases hitems : Query.itemTexts fuzziness must filter mustNot should = []
    · rw [if_pos hitems, hitems]
      rfl
    · have hsome : ¬Query.itemTexts fuzziness must filter mustNot should = [[]] := by
        intro hempty
        have hmem : [] ∈ Query.itemTexts fuzziness must filter mustNot should :=
          hempty ▸ List.mem_cons_self
        exact absurd (Query.startsItem_of_mem_itemTexts hmem) (by decide)
      have hstarts : (Query.itemTexts fuzziness must filter mustNot should).all startsItem =
          true :=
        List.all_eq_true.mpr fun item hitem => Query.startsItem_of_mem_itemTexts hitem
      rw [if_neg hitems, ClauseTree.ofWords, if_neg hsome, if_pos hstarts]

/-- The query string of a clean query is read as the tree that the query stands for. -/
theorem read_emitWith {query : Query} (hclean : query.isClean = true) (fuzziness : UInt32) :
    ClauseTree.read (query.emitWith fuzziness) = query.clauseTree fuzziness := by
  rw [ClauseTree.read, Query.toList_emitWith]
  exact ofWords_text hclean fuzziness (Nat.lt_succ_self _)

/-- Compositions in both kinds of places, with parentheses and separators inside values. -/
def nestedClauses : Query :=
  .bool [.term "title" ")OR(", .bool [] [] [] [] none] []
    [.bool [.existing "tag"] [] [] [.terms "tag" ["(", "b c"]] none]
    [.bool [] [.matching "body" "one OR two"] [] [] none,
      .range { field := "year", gt := some "1990", lte := some "2000" }, .ids ["1", "2"]]
    (some 1)

theorem read_emitWith_nestedClauses :
    nestedClauses.isClean = true ∧
      ClauseTree.read (nestedClauses.emitWith 2) = nestedClauses.clauseTree 2 :=
  ⟨by decide, read_emitWith (by decide) 2⟩

end SearchQuery
