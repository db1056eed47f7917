import SearchQuery.Proofs.Escaping
import SearchQuery.Query.Emission

/-!
# The texts of queries

`Query.text` is the query string of a query as a list of characters.  This module puts the texts
together without `render`'s recursion over lists.

* `Query.induction` is induction over queries, with a hypothesis for every clause.
* `trim_onField` trims a clause of one field: only the field's beginning and the requirement's end
  are touched.
* `text_bool` is the text of a composition: its items with spaces between them, none of which
  trimming changes (`isTrimmed_of_mem_itemTexts`).
* `text_infix_of_mem_clauses` finds the text of a clause in the text of its composition.
-/

namespace SearchQuery

open Text

namespace Query

/-- Induction over queries: from the clauses of a composition to the composition. -/
@[elab_as_elim]
theorem induction {motive : Query → Prop}
    (leaf : ∀ query, query.kind ≠ .bool → motive query)
    (bool : ∀ must filter mustNot should minimum, (∀ query ∈ must, motive query) →
      (∀ query ∈ filter, motive query) → (∀ query ∈ mustNot, motive query) →
      (∀ query ∈ should, motive query) → motive (.bool must filter mustNot should minimum)) :
    ∀ query, motive query
  | .bool must filter mustNot should minimum =>
      bool must filter mustNot should minimum
        (fun query _ => induction leaf bool query) (fun query _ => induction leaf bool query)
        (fun query _ => induction leaf bool query) (fun query _ => induction leaf bool query)
  | .term field value => leaf (.term field value) nofun
  | .terms field values => leaf (.terms field values) nofun
  | .matching field value => leaf (.matching field value) nofun
  | .phrase field value => leaf (.phrase field value) nofun
  | .beginning field value => leaf (.beginning field value) nofun
  | .wildcard field value => leaf (.wildcard field value) nofun
  | .fuzzy field value fuzziness => leaf (.fuzzy field value fuzziness) nofun
  | .regexp field value => leaf (.regexp field value) nofun
  | .existing field => leaf (.existing field) nofun
  | .ids values => leaf (.ids values) nofun
  | .range bounds => leaf (.range bounds) nofun
termination_by query => sizeOf query
decreasing_by
  all_goals
    rename_i hmem
    have hlt := List.sizeOf_lt_of_mem hmem
    simp only [Query.bool.sizeOf_spec]
    omega

/-- Induction over queries, with one hypothesis for the clauses of all occurrences. -/
@[elab_as_elim]
theorem induction_build {motive : Query → Prop}
    (leaf : ∀ query, query.kind ≠ .bool → motive query)
    (build : ∀ clauses : BoolClauses,
      (∀ occurrence, ∀ query ∈ clauses.get occurrence, motive query) → motive clauses.build)
    (query : Query) : motive query := by
  induction query using Query.induction with
  | leaf query hkind => exact leaf query hkind
  | bool must filter mustNot should minimum hmust hfilter hmustNot hshould =>
    exact build ⟨must, filter, mustNot, should, minimum⟩
      (Occurrence.forall_iff.mpr ⟨hmust, hfilter, hmustNot, hshould⟩)

/-! ## Texts of clauses -/

/-- The query string of a query, as a list of characters. -/
def text (fuzziness : UInt32) (query : Query) : List Char :=
  trim (query.render fuzziness)

theorem toList_emitWith (fuzziness : UInt32) (query : Query) :
    (query.emitWith fuzziness).toList = query.text fuzziness := by
  simp [emitWith, text]

theorem isTrimmed_text (fuzziness : UInt32) (query : Query) :
    IsTrimmed (query.text fuzziness) :=
  isTrimmed_trim _

/-- The text of a clause behind a sign: that of a composition in parentheses. -/
def clauseText (fuzziness : UInt32) (query : Query) : List Char :=
  if query.kind = .bool then parenthesized (query.text fuzziness) else query.text fuzziness

theorem isTrimmed_parenthesized (text : List Char) : IsTrimmed (parenthesized text) :=
  isTrimmed_between (by decide) (by decide) text

theorem isTrimmed_clauseText (fuzziness : UInt32) (query : Query) :
    IsTrimmed (query.clauseText fuzziness) := by
  unfold clauseText
  split
  · exact isTrimmed_parenthesized _
  · exact isTrimmed_text fuzziness query

theorem clauseTexts_eq_map (fuzziness : UInt32) (queries : List Query) :
    clauseTexts fuzziness queries = queries.map (clauseText fuzziness) := by
  induction queries with
  | nil => simp [clauseTexts]
  | cons query rest ih => simp [clauseTexts, ih, clauseText, text]

theorem trimmedTexts_eq_map (fuzziness : UInt32) (queries : List Query) :
    trimmedTexts fuzziness queries = queries.map (text fuzziness) := by
  induction queries with
  | nil => simp [trimmedTexts]
  | cons query rest ih => simp [trimmedTexts, ih, text]

/-- A clause of one field: its colon is not blank, so its two sides are trimmed apart. -/
theorem trim_onField (field : String) (requirement : List Char) :
    trim (onField field requirement) =
      trimStart (fieldName field) ++ ':' :: trimEnd requirement :=
  trim_append_cons (by decide) _ _

theorem exists_onField_eq_cons {field : String} (h : isPlainName field = true)
    (requirement : List Char) :
    ∃ c rest, isPlainChar c = true ∧ onField field requirement = c :: rest := by
  obtain ⟨hne, hplain⟩ := isPlainName_iff.mp h
  obtain ⟨c, rest, hname⟩ := List.exists_cons_of_ne_nil hne
  refine ⟨c, rest ++ ':' :: requirement, hplain c (hname ▸ List.mem_cons_self), ?_⟩
  rw [onField, fieldName, hname]
  rfl

theorem escaped_alternatives_escape (values : List String) :
    Escaped (alternatives (values.map fun value => escape value.toList)) := by
  refine escaped_intercalate (escaped_of_isOrdinary (by decide)) fun text htext => ?_
  obtain ⟨value, _, rfl⟩ := List.mem_map.mp htext
  exact escaped_escape value.toList

/-! ## Texts of compositions -/

/-- The items of a composition that have a sign of their own. -/
def signedTexts (fuzziness : UInt32) (must filter mustNot : List Query) : List (List Char) :=
  must.map (fun query => '+' :: query.clauseText fuzziness)
    ++ filter.map (fun query => '+' :: query.clauseText fuzziness)
    ++ mustNot.map (fun query => '-' :: query.clauseText fuzziness)

/-- All items of a composition. -/
def itemTexts (fuzziness : UInt32) (must filter mustNot should : List Query) :
    List (List Char) :=
  signedTexts fuzziness must filter mustNot ++
    optionalGroup (signedTexts fuzziness must filter mustNot) (should.map (text fuzziness))

theorem render_bool (fuzziness : UInt32) (must filter mustNot should : List Query)
    (minimum : Option Int32) :
    (bool must filter mustNot should minimum).render fuzziness =
      spaceSeparated (itemTexts fuzziness must filter mustNot should) := by
  simp only [render, clauseTexts_eq_map, trimmedTexts_eq_map, List.map_map]
  rfl

theorem optionalGroup_eq_nil_iff {signed optional : List (List Char)} :
    optionalGroup signed optional = [] ↔ optional = [] := by
  unfold optionalGroup
  split
  · simpa
  · split <;> simpa

theorem mem_optionalGroup {signed optional : List (List Char)} {item : List Char}
    (h : item ∈ optionalGroup signed optional) :
    item = parenthesized (alternatives optional) ∨
      item = '+' :: parenthesized (alternatives optional) := by
  unfold optionalGroup at h
  split at h
  · exact nomatch h
  · split at h
    · exact .inl (List.mem_singleton.mp h)
    · exact .inr (List.mem_singleton.mp h)

/-- A composition has no items exactly if it has no clauses. -/
theorem itemTexts_eq_nil_iff {fuzziness : UInt32} {must filter mustNot should : List Query} :
    itemTexts fuzziness must filter mustNot should = [] ↔
      must = [] ∧ filter = [] ∧ mustNot = [] ∧ should = [] := by
  simp [itemTexts, signedTexts, optionalGroup_eq_nil_iff]

/-- An item is never empty, and trimming leaves it alone. -/
theorem isTrimmed_of_mem_itemTexts {fuzziness : UInt32} {must filter mustNot should : List Query}
    {item : List Char} (h : item ∈ itemTexts fuzziness must filter mustNot should) :
    IsTrimmed item ∧ item ≠ [] := by
  have hsigned : ∀ sign query, isBlank sign = false →
      IsTrimmed (sign :: clauseText fuzziness query) ∧ sign :: clauseText fuzziness query ≠ [] :=
    fun sign query hsign => ⟨(isTrimmed_clauseText fuzziness query).cons hsign, nofun⟩
  rcases List.mem_append.mp h with h | h
  · simp only [signedTexts, List.mem_append, List.mem_map] at h
    rcases h with (⟨query, _, rfl⟩ | ⟨query, _, rfl⟩) | ⟨query, _, rfl⟩
    · exact hsigned '+' query (by decide)
    · exact hsigned '+' query (by decide)
    · exact hsigned '-' query (by decide)
  · rcases mem_optionalGroup h with rfl | rfl
    · exact ⟨isTrimmed_parenthesized _, nofun⟩
    · exact ⟨(isTrimmed_parenthesized _).cons (by decide), nofun⟩

theorem isTrimmed_render_bool (fuzziness : UInt32) (must filter mustNot should : List Query)
    (minimum : Option Int32) :
    IsTrimmed ((bool must filter mustNot should minimum).render fuzziness) := by
  rw [render_bool]
  exact isTrimmed_intercalate (fun _ h => (isTrimmed_of_mem_itemTexts h).1)
    fun _ h => (isTrimmed_of_mem_itemTexts h).2

/-- The text of a composition is its items with spaces between them. -/
theorem text_bool (fuzziness : UInt32) (must filter mustNot should : List Query)
    (minimum : Option Int32) :
    (bool must filter mustNot should minimum).text fuzziness =
      spaceSeparated (itemTexts fuzziness must filter mustNot should) := by
  rw [text, (isTrimmed_render_bool fuzziness must filter mustNot should minimum).trim_eq,
    render_bool]

theorem infix_parenthesized (text : List Char) : text <:+: parenthesized text :=
  ⟨['('], [')'], rfl⟩

theorem text_infix_clauseText (fuzziness : UInt32) (query : Query) :
    query.text fuzziness <:+: query.clauseText fuzziness := by
  unfold clauseText
  split
  · exact infix_parenthesized _
  · exact List.infix_rfl

theorem text_infix_signedTexts {fuzziness : UInt32} {must filter mustNot : List Query}
    {part : Query} (h : part ∈ must ++ filter ++ mustNot) :
    ∃ item ∈ signedTexts fuzziness must filter mustNot, part.text fuzziness <:+: item := by
  have hsigned : ∀ sign, part.text fuzziness <:+: sign :: part.clauseText fuzziness :=
    fun sign => (text_infix_clauseText fuzziness part).trans (List.suffix_cons _ _).isInfix
  simp only [signedTexts, List.mem_append, List.mem_map] at h ⊢
  rcases h with (h | h) | h
  · exact ⟨_, .inl (.inl ⟨part, h, rfl⟩), hsigned '+'⟩
  · exact ⟨_, .inl (.inr ⟨part, h, rfl⟩), hsigned '+'⟩
  · exact ⟨_, .inr ⟨part, h, rfl⟩, hsigned '-'⟩

theorem text_infix_optionalGroup {fuzziness : UInt32} (signed : List (List Char))
    {should : List Query} {part : Query} (h : part ∈ should) :
    ∃ item ∈ optionalGroup signed (should.map (text fuzziness)),
      part.text fuzziness <:+: item := by
  have hgroup : part.text fuzziness <:+:
      parenthesized (alternatives (should.map (text fuzziness))) :=
    (infix_intercalate_of_mem (List.mem_map_of_mem h)).trans (infix_parenthesized _)
  have hne : should.map (text fuzziness) ≠ [] :=
    List.ne_nil_of_mem (List.mem_map_of_mem h)
  unfold optionalGroup
  rw [if_neg hne]
  split
  · exact ⟨_, List.mem_singleton_self _, hgroup⟩
  · exact ⟨_, List.mem_singleton_self _, hgroup.trans (List.suffix_cons _ _).isInfix⟩

/-- The text of a clause stands in the text of its composition as it is. -/
theorem text_infix_of_mem_clauses {fuzziness : UInt32} {part query : Query}
    (h : part ∈ query.clauses) : part.text fuzziness <:+: query.text fuzziness := by
  cases query with
  | bool must filter mustNot should minimum =>
    rw [text_bool]
    suffices hitem : ∃ item ∈ itemTexts fuzziness must filter mustNot should,
        part.text fuzziness <:+: item by
      obtain ⟨item, hmem, hinfix⟩ := hitem
      exact hinfix.trans (infix_intercalate_of_mem hmem)
    rcases List.mem_append.mp h with h | h
    · obtain ⟨item, hmem, hinfix⟩ := text_infix_signedTexts h
      exact ⟨item, List.mem_append_left _ hmem, hinfix⟩
    · obtain ⟨item, hmem, hinfix⟩ := text_infix_optionalGroup _ h
      exact ⟨item, List.mem_append_right _ hmem, hinfix⟩
  | _ => exact nomatch h

end Query

end SearchQuery
