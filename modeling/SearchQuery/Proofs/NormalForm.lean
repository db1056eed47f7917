import Mathlib.Data.List.Forall2
import SearchQuery.Proofs.Emission
import SearchQuery.Query.Document

/-!
# Normal forms of queries

A query string tells less than the query it is the string of: a clause of `must` looks like one of
`filter`, `minimumShouldMatch` is not written, and a fuzzy clause that leaves the number of edits to
the default looks like one that names it.  The normal form of a query has nothing left to choose of
these, and the query string is that of the normal form.

* `merged` and `withFuzziness` are the two halves of the normal form.  Each changes the clauses of
  a composition one by one, so one lemma about items (`itemTexts_map`) keeps the text of both
  (`text_merged`, `text_withFuzziness`).
* `Rearranged` relates two queries that differ in what `merged` forgets, at any number of places and
  depths (`rearranged_iff_merged_eq`).
-/

namespace SearchQuery

namespace Query

/-! ## The two halves -/

mutual

/-- The query with the number of edits written out in every fuzzy clause. -/
def withFuzziness (fuzziness : UInt32) : Query → Query
  | fuzzy field value edits => fuzzy field value (some (edits.getD fuzziness))
  | bool must filter mustNot should minimum =>
      bool (allWithFuzziness fuzziness must) (allWithFuzziness fuzziness filter)
        (allWithFuzziness fuzziness mustNot) (allWithFuzziness fuzziness should) minimum
  | query => query

/-- Some queries with the number of edits written out in every fuzzy clause. -/
def allWithFuzziness (fuzziness : UInt32) : List Query → List Query
  | [] => []
  | query :: rest => query.withFuzziness fuzziness :: allWithFuzziness fuzziness rest

end

mutual

/-- The query with the required clauses of every composition in one list, and without
`minimumShouldMatch`. -/
def merged : Query → Query
  | bool must filter mustNot should _ =>
      bool (allMerged must ++ allMerged filter) [] (allMerged mustNot) (allMerged should) none
  | query => query

/-- Some queries, merged one by one. -/
def allMerged : List Query → List Query
  | [] => []
  | query :: rest => query.merged :: allMerged rest

end

/-- The normal form of a query where a fuzzy clause has `fuzziness` edits by default. -/
def normalForm (fuzziness : UInt32) (query : Query) : Query :=
  (query.withFuzziness fuzziness).merged

theorem allWithFuzziness_eq_map (fuzziness : UInt32) (queries : List Query) :
    allWithFuzziness fuzziness queries = queries.map (withFuzziness fuzziness) := by
  induction queries with
  | nil => rfl
  | cons query rest ih => rw [allWithFuzziness, ih, List.map_cons]

theorem allMerged_eq_map (queries : List Query) : allMerged queries = queries.map merged := by
  induction queries with
  | nil => rfl
  | cons query rest ih => rw [allMerged, ih, List.map_cons]

@[simp] theorem kind_withFuzziness (fuzziness : UInt32) (query : Query) :
    (query.withFuzziness fuzziness).kind = query.kind := by
  cases query <;> rfl

@[simp] theorem kind_merged (query : Query) : query.merged.kind = query.kind := by
  cases query <;> rfl

theorem merged_of_kind_ne {query : Query} (hleaf : query.kind ≠ .bool) :
    query.merged = query := by
  cases query with
  | bool => exact absurd rfl hleaf
  | _ => rfl

/-- The merged composition, with the lists as they stand behind each other. -/
theorem merged_bool (must filter mustNot should : List Query) (minimum : Option Int32) :
    (bool must filter mustNot should minimum).merged =
      bool ((must ++ filter).map merged) [] (mustNot.map merged) (should.map merged) none := by
  simp only [merged, allMerged_eq_map, List.map_append]

/-! ## Texts -/

/-- Changing every clause changes nothing about the items if it keeps the clauses' kinds and
texts. -/
theorem itemTexts_map {change : Query → Query} {fuzziness fuzziness' : UInt32}
    (hkind : ∀ query, (change query).kind = query.kind) {must filter mustNot should : List Query}
    (hmust : ∀ query ∈ must, (change query).text fuzziness' = query.text fuzziness)
    (hfilter : ∀ query ∈ filter, (change query).text fuzziness' = query.text fuzziness)
    (hmustNot : ∀ query ∈ mustNot, (change query).text fuzziness' = query.text fuzziness)
    (hshould : ∀ query ∈ should, (change query).text fuzziness' = query.text fuzziness) :
    itemTexts fuzziness' (must.map change) (filter.map change) (mustNot.map change)
        (should.map change) =
      itemTexts fuzziness must filter mustNot should := by
  have hclauses : ∀ (sign : Char) {queries : List Query},
      (∀ query ∈ queries, (change query).text fuzziness' = query.text fuzziness) →
      (queries.map change).map (fun query => sign :: query.clauseText fuzziness') =
        queries.map fun query => sign :: query.clauseText fuzziness := by
    intro sign queries htexts
    rw [List.map_map]
    refine List.map_congr_left fun query hmem => ?_
    simp only [Function.comp_apply, clauseText, hkind, htexts query hmem]
  have hoptional : (should.map change).map (text fuzziness') = should.map (text fuzziness) := by
    rw [List.map_map]
    exact List.map_congr_left hshould
  simp only [itemTexts, signedTexts, hclauses _ hmust, hclauses _ hfilter, hclauses _ hmustNot,
    hoptional]

/-- A clause of `filter` is written like one of `must`. -/
theorem itemTexts_append (fuzziness : UInt32) (must filter mustNot should : List Query) :
    itemTexts fuzziness (must ++ filter) [] mustNot should =
      itemTexts fuzziness must filter mustNot should := by
  simp only [itemTexts, signedTexts, List.map_append, List.map_nil, List.append_nil]

theorem text_withFuzziness (fuzziness fuzziness' : UInt32) (query : Query) :
    (query.withFuzziness fuzziness).text fuzziness' = query.text fuzziness := by
  induction query using Query.induction with
  | leaf query hleaf =>
    cases query with
    | bool => exact absurd rfl hleaf
    | _ => rfl
  | bool must filter mustNot should minimum hmust hfilter hmustNot hshould =>
    simp only [withFuzziness, text_bool, allWithFuzziness_eq_map]
    rw [itemTexts_map (kind_withFuzziness fuzziness) hmust hfilter hmustNot hshould]

theorem text_merged (fuzziness : UInt32) (query : Query) :
    query.merged.text fuzziness = query.text fuzziness := by
  induction query using Query.induction with
  | leaf query hleaf => rw [merged_of_kind_ne hleaf]
  | bool must filter mustNot should minimum hmust hfilter hmustNot hshould =>
    rw [merged_bool, text_bool, text_bool, List.map_append, itemTexts_append,
      itemTexts_map kind_merged hmust hfilter hmustNot hshould]

/-- The default has no part in the text of a normal form. -/
theorem text_normalForm (fuzziness fuzziness' : UInt32) (query : Query) :
    (query.normalForm fuzziness).text fuzziness' = query.text fuzziness :=
  (text_merged fuzziness' _).trans (text_withFuzziness fuzziness fuzziness' query)

/-! ## Rearranged queries -/

/-- Two queries that differ, at any number of places, in where `must` ends and `filter` begins and
in `minimumShouldMatch`. -/
inductive Rearranged : Query → Query → Prop where
  /-- Nothing is changed. -/
  | kept (query : Query) : Rearranged query query
  /-- The boundary and the minimum are any others, and the clauses are rearranged. -/
  | bool {must filter mustNot should must' filter' mustNot' should' : List Query}
      (minimum minimum' : Option Int32)
      (hrequired : List.Forall₂ Rearranged (must ++ filter) (must' ++ filter'))
      (hmustNot : List.Forall₂ Rearranged mustNot mustNot')
      (hshould : List.Forall₂ Rearranged should should') :
      Rearranged (.bool must filter mustNot should minimum)
        (.bool must' filter' mustNot' should' minimum')

theorem forall₂_rearranged_iff {queries queries' : List Query}
    (h : ∀ query ∈ queries, ∀ query', Rearranged query query' ↔ query.merged = query'.merged) :
    List.Forall₂ Rearranged queries queries' ↔ queries.map merged = queries'.map merged := by
  rw [← List.forall₂_eq_eq_eq, List.forall₂_map_left_iff, List.forall₂_map_right_iff]
  induction queries generalizing queries' with
  | nil => cases queries' <;> simp
  | cons query rest ih =>
    cases queries' with
    | nil => simp
    | cons query' rest' =>
      rw [List.forall₂_cons, List.forall₂_cons, h query List.mem_cons_self,
        ih fun next hmem => h next (List.mem_cons_of_mem _ hmem)]

/-- The rearrangements of a query are the queries that are merged into the same. -/
theorem rearranged_iff_merged_eq (query : Query) :
    ∀ query', Rearranged query query' ↔ query.merged = query'.merged := by
  induction query using Query.induction with
  | leaf query hleaf =>
    intro query'
    constructor
    · rintro (_ | _)
      · rfl
      · exact absurd rfl hleaf
    · intro h
      have hleaf' : query'.kind ≠ .bool := by rwa [← kind_merged, ← h, kind_merged]
      rw [merged_of_kind_ne hleaf, merged_of_kind_ne hleaf'] at h
      exact h ▸ .kept query
  | bool must filter mustNot should minimum hmust hfilter hmustNot hshould =>
    have hrequired : ∀ query ∈ must ++ filter, ∀ query',
        Rearranged query query' ↔ query.merged = query'.merged := fun query hmem =>
      (List.mem_append.mp hmem).elim (hmust query) (hfilter query)
    intro query'
    constructor
    · rintro (_ | ⟨_, minimum', hrequired', hmustNot', hshould'⟩)
      · rfl
      · rw [merged_bool, merged_bool, (forall₂_rearranged_iff hrequired).mp hrequired',
          (forall₂_rearranged_iff hmustNot).mp hmustNot',
          (forall₂_rearranged_iff hshould).mp hshould']
    · intro h
      cases query' with
      | bool must' filter' mustNot' should' minimum' =>
        rw [merged_bool, merged_bool] at h
        obtain ⟨hrequired', -, hmustNot', hshould', -⟩ := Query.bool.inj h
        exact .bool minimum minimum' ((forall₂_rearranged_iff hrequired).mpr hrequired')
          ((forall₂_rearranged_iff hmustNot).mpr hmustNot')
          ((forall₂_rearranged_iff hshould).mpr hshould')
      | _ => exact nomatch congrArg kind h

theorem emitWith_eq_of_text_eq {query query' : Query} {fuzziness fuzziness' : UInt32}
    (h : query.text fuzziness = query'.text fuzziness') :
    query.emitWith fuzziness = query'.emitWith fuzziness' := by
  rw [← String.toList_inj, toList_emitWith, toList_emitWith, h]

/-- The query string is that of the normal form: two queries with the same one are written alike,
whatever their defaults are.  So rearranging a query changes nothing, and neither does writing the
default out, which is what the translation of a document does. -/
theorem emitWith_eq_of_normalForm_eq (query query' : Query) (fuzziness fuzziness' : UInt32) :
    (query.normalForm fuzziness = query'.normalForm fuzziness' →
        query.emitWith fuzziness = query'.emitWith fuzziness') ∧
      (Rearranged query query' → query.emitWith fuzziness = query'.emitWith fuzziness) ∧
      query.emitWith fuzziness = (query.withFuzziness fuzziness).emitWith fuzziness' ∧
      ∀ config text, Document.translate config text =
        (Document.parse config text).map fun query =>
          (query.withFuzziness config.defaultFuzziness).emit := by
  refine ⟨fun h => emitWith_eq_of_text_eq ?_, fun h => emitWith_eq_of_text_eq ?_,
    emitWith_eq_of_text_eq ?_, fun config text => ?_⟩
  · rw [← text_normalForm fuzziness 0 query, h, text_normalForm]
  · rw [← text_merged fuzziness query, (rearranged_iff_merged_eq query query').mp h, text_merged]
  · rw [text_withFuzziness]
  · have hdefault : emitWith config.defaultFuzziness =
        fun query => (query.withFuzziness config.defaultFuzziness).emit :=
      funext fun query =>
        emitWith_eq_of_text_eq (text_withFuzziness config.defaultFuzziness _ query).symm
    rw [Document.translate, hdefault]

/-- A query whose `clauses` stand behind a sign and among the optional clauses. -/
def nested (clauses : Query) (edits : Option UInt32) : Query :=
  .bool [.fuzzy "a" "x" edits] [] [clauses] [clauses, .existing "b"] none

/-- The composition named last is rearranged from the first, and has its edits written out. -/
theorem emitWith_eq_of_normalForm_eq_nested :
    let parted := nested (.bool [.term "b" "y"] [.fuzzy "c" "z" none] [] [] (some 3)) none
    let joined := nested (.bool [.term "b" "y", .fuzzy "c" "z" none] [] [] [] none) none
    let named := nested (.bool [] [.term "b" "y", .fuzzy "c" "z" (some 1)] [] [] none) (some 1)
    (parted.normalForm 1 = named.normalForm 7 ∧ parted.emitWith 1 = named.emitWith 7) ∧
      Rearranged parted joined ∧ parted.emitWith 1 = joined.emitWith 1 := by
  intro parted joined named
  have hnormal : parted.normalForm 1 = named.normalForm 7 := rfl
  have hrearranged : Rearranged parted joined :=
    (rearranged_iff_merged_eq parted joined).mpr rfl
  exact ⟨⟨hnormal, (emitWith_eq_of_normalForm_eq parted named 1 7).1 hnormal⟩, hrearranged,
    (emitWith_eq_of_normalForm_eq parted joined 1 1).2.1 hrearranged⟩

end Query

end SearchQuery
