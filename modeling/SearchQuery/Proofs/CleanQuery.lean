import SearchQuery.Proofs.ClauseTree
import SearchQuery.Proofs.NumberText

/-!
# Clean queries

A query is tidy if what its clauses leave unescaped cannot be taken for brackets, quotes or spaces of
the syntax.  It is legible if its fields are plain texts, too, and clean if they are plain names.

* A single clause of a legible query is solid and begins with the name of a field
  (`isFieldText_text`), so no reader takes it apart or takes it for an item.
* The words of a composition are its items (`words_text_bool`).
* `closed_text` and `orWord_not_mem_words_text` say what a group relies on in its alternatives.
-/

namespace SearchQuery

open Text

/-! ## Conditions on texts -/

/-- Whether a text has no blank. -/
def hasNoBlank (text : String) : Bool :=
  text.toList.all fun c => !isBlank c

/-- Whether a text has no bracket of any kind, no double quote and no backslash. -/
def hasNoDelimiter (text : String) : Bool :=
  text.toList.all isInert

namespace Query

mutual

/-- Whether the fields of a query meet a condition, and no text that is written as it stands has a
delimiter, nor a blank unless brackets or quotes are put about it. -/
def isTidy (named : String → Bool) : Query → Bool
  | term field value | beginning field value | fuzzy field value _ =>
      named field && hasNoBlank value
  | terms field _ => named field
  | matching field value | phrase field value => named field && hasNoDelimiter value
  | wildcard field value | regexp field value =>
      named field && hasNoDelimiter value && hasNoBlank value
  | existing field => named field
  | ids values => values.all hasNoDelimiter
  | range bounds =>
      named bounds.field && Bound.all.all fun bound => (bounds.get? bound).all hasNoDelimiter
  | bool must filter mustNot should _ =>
      allTidy named must && allTidy named filter && allTidy named mustNot && allTidy named should

/-- Whether some queries are tidy. -/
def allTidy (named : String → Bool) : List Query → Bool
  | [] => true
  | query :: rest => query.isTidy named && allTidy named rest

end

/-- Whether a query is tidy and its fields are plain texts. -/
def isLegible (query : Query) : Bool :=
  query.isTidy isPlainText

/-- Whether a query is tidy and its fields are plain names. -/
def isClean (query : Query) : Bool :=
  query.isTidy isPlainName

theorem allTidy_iff {named : String → Bool} {queries : List Query} :
    allTidy named queries = true ↔ ∀ query ∈ queries, query.isTidy named = true := by
  induction queries with
  | nil => simp [allTidy]
  | cons query rest ih => rw [allTidy, Bool.and_eq_true, ih, List.forall_mem_cons]

/-- A composition is tidy if all its clauses are. -/
theorem isTidy_bool {named : String → Bool} {must filter mustNot should : List Query}
    {minimum : Option Int32} :
    (bool must filter mustNot should minimum).isTidy named = true ↔
      (∀ query ∈ must, query.isTidy named = true) ∧
      (∀ query ∈ filter, query.isTidy named = true) ∧
      (∀ query ∈ mustNot, query.isTidy named = true) ∧
      ∀ query ∈ should, query.isTidy named = true := by
  simp only [isTidy, Bool.and_eq_true, allTidy_iff, and_assoc]

/-- A query is tidy under every weaker condition, too. -/
theorem isTidy_of_imp {named named' : String → Bool}
    (himp : ∀ field, named field = true → named' field = true) {query : Query}
    (h : query.isTidy named = true) : query.isTidy named' = true := by
  induction query using Query.induction with
  | leaf query hleaf =>
    cases query with
    | bool => exact absurd rfl hleaf
    | ids values => exact h
    | terms field | existing field => exact himp field h
    | _ =>
      simp only [isTidy, Bool.and_eq_true] at h ⊢
      simp only [himp _, h, and_self]
  | bool must filter mustNot should minimum hmust hfilter hmustNot hshould =>
    obtain ⟨cmust, cfilter, cmustNot, cshould⟩ := isTidy_bool.mp h
    exact isTidy_bool.mpr ⟨fun query hmem => hmust query hmem (cmust query hmem),
      fun query hmem => hfilter query hmem (cfilter query hmem),
      fun query hmem => hmustNot query hmem (cmustNot query hmem),
      fun query hmem => hshould query hmem (cshould query hmem)⟩

theorem isLegible_of_isClean {query : Query} (h : query.isClean = true) :
    query.isLegible = true :=
  isTidy_of_imp (fun _ => isPlainText_of_isPlainName) h

end Query

/-! ## Single clauses -/

theorem not_mem_of_hasNoBlank {text : String} (h : hasNoBlank text = true) :
    ' ' ∉ text.toList := by
  intro hmem
  have hspace := List.all_eq_true.mp h ' ' hmem
  exact absurd hspace (by decide)

theorem space_not_mem_escape {value : String} (h : hasNoBlank value = true) :
    ' ' ∉ escape value.toList := by
  intro hmem
  rcases mem_of_mem_escape hmem with hc | hc
  · exact absurd hc (by decide)
  · exact not_mem_of_hasNoBlank h hc

theorem trimStart_fieldName {field : String} (h : isPlainText field = true) :
    trimStart (fieldName field) = fieldName field :=
  trimStart_eq_self fun c hc =>
    (isPlainChar_iff.mp (isPlainChar_of_isPlainText h c (List.mem_of_mem_head? hc))).1

/-- Trimming or not, a number keeps together. -/
theorem solid_trimEnd_natText (n : Nat) : Solid (trimEnd (Number.natText n)) := by
  have hnumber := Number.isNumberText_natText n
  refine solid_trimEnd_of_isInert (List.all_eq_true.mpr fun c hc => ?_)
    fun hmem => hnumber.ne_of_mem hmem (show Number.isNumberChar ' ' = false by decide) rfl
  have hne : ∀ d, Number.isNumberChar d = false → c ≠ d := fun _ hd => hnumber.ne_of_mem hc hd
  simp [isInert, isOpening, isClosing, hne '\\' (by decide), hne '"' (by decide),
    hne '(' (by decide), hne '[' (by decide), hne '{' (by decide), hne ')' (by decide),
    hne ']' (by decide), hne '}' (by decide)]

namespace Query

/-- The text names a plain field and requires something of it that keeps together. -/
def IsFieldText (text : List Char) : Prop :=
  ∃ field requirement, isPlainText field = true ∧ Solid requirement ∧
    text = onField field requirement

theorem isFieldText_trim_onField {field : String} {requirement : List Char}
    (hfield : isPlainText field = true) (hsolid : Solid (trimEnd requirement)) :
    IsFieldText (trim (onField field requirement)) := by
  refine ⟨field, trimEnd requirement, hfield, hsolid, ?_⟩
  rw [trim_onField, trimStart_fieldName hfield]
  rfl

/-- A requirement that ends with a character of its own is not touched by trimming. -/
theorem isFieldText_of_isTrimmed {field : String} {requirement : List Char}
    (hfield : isPlainText field = true) (htrimmed : IsTrimmed requirement)
    (hsolid : Solid requirement) : IsFieldText (trim (onField field requirement)) := by
  refine isFieldText_trim_onField hfield ?_
  rwa [htrimmed.trimEnd_eq]

theorem solid_doubleQuoted_of_hasNoDelimiter {value : String}
    (h : hasNoDelimiter value = true) : Solid (doubleQuoted value.toList) :=
  solid_doubleQuoted (fun hmem => absurd (List.all_eq_true.mp h _ hmem) (by decide))
    fun hmem => absurd (List.all_eq_true.mp h _ hmem) (by decide)

theorem closed_spaceSeparated_doubleQuoted {values : List String}
    (h : ∀ value ∈ values, hasNoDelimiter value = true) :
    Closed (spaceSeparated (values.map fun value => doubleQuoted value.toList)) := by
  refine closed_intercalate (closed_of_isInert (by decide)) fun text htext => ?_
  obtain ⟨value, hvalue, rfl⟩ := List.mem_map.mp htext
  exact (solid_doubleQuoted_of_hasNoDelimiter (h value hvalue)).toClosed

/-- An end of a legible range is closed, whichever of its bounds is written. -/
theorem closed_intervalEnd {preferred other : Option String}
    (hpreferred : preferred.all hasNoDelimiter = true)
    (hother : other.all hasNoDelimiter = true) : Closed (intervalEnd preferred other) := by
  unfold intervalEnd
  cases preferred with
  | some value => exact closed_of_isInert hpreferred
  | none =>
    cases other with
    | some value => exact closed_of_isInert hother
    | none => exact closed_of_isInert (by decide)

theorem solid_interval {opening closing : Char} {low high : List Char}
    (hopening : isOpening opening = true) (hclosing : isClosing closing = true)
    (hlow : Closed low) (hhigh : Closed high) :
    Solid (interval opening low high closing) := by
  have hto : Closed " TO ".toList := closed_of_isInert (by decide)
  exact ((hlow.append hto).append hhigh).bracketed hopening hclosing

/-- Every single clause of a legible query names a field and requires something of it that keeps
together. -/
theorem isFieldText_text {query : Query} (hleaf : query.kind ≠ .bool)
    (hlegible : query.isLegible = true) (fuzziness : UInt32) :
    IsFieldText (query.text fuzziness) := by
  rw [text]
  cases query with
  | bool => exact absurd rfl hleaf
  | term field value =>
    simp only [isLegible, isTidy, Bool.and_eq_true] at hlegible
    rw [render]
    exact isFieldText_trim_onField hlegible.1
      ((escaped_escape _).solid_trimEnd (space_not_mem_escape hlegible.2))
  | terms field values =>
    rw [render]
    exact isFieldText_of_isTrimmed hlegible (isTrimmed_parenthesized _)
      (escaped_alternatives_escape values).closed.parenthesized
  | matching field value =>
    simp only [isLegible, isTidy, Bool.and_eq_true] at hlegible
    rw [render]
    exact isFieldText_of_isTrimmed hlegible.1 (isTrimmed_parenthesized _)
      (closed_of_isInert hlegible.2).parenthesized
  | phrase field value =>
    simp only [isLegible, isTidy, Bool.and_eq_true] at hlegible
    rw [render]
    exact isFieldText_of_isTrimmed hlegible.1 (isTrimmed_between (by decide) (by decide) _)
      (solid_doubleQuoted_of_hasNoDelimiter hlegible.2)
  | beginning field value =>
    simp only [isLegible, isTidy, Bool.and_eq_true] at hlegible
    have hvalue := (escaped_escape value.toList).solid (space_not_mem_escape hlegible.2)
    rw [render]
    refine isFieldText_trim_onField hlegible.1 ?_
    rw [trimEnd_concat_of_not_isBlank (by decide)]
    exact hvalue.append (solid_of_isInert (by decide) (by decide))
  | wildcard field value =>
    simp only [isLegible, isTidy, Bool.and_eq_true] at hlegible
    rw [render]
    exact isFieldText_trim_onField hlegible.1.1
      (solid_trimEnd_of_isInert hlegible.1.2
        (not_mem_of_hasNoBlank hlegible.2))
  | fuzzy field value edits =>
    simp only [isLegible, isTidy, Bool.and_eq_true] at hlegible
    have hvalue := (escaped_escape value.toList).solid (space_not_mem_escape hlegible.2)
    have htilde : Solid ['~'] := solid_of_isInert (by decide) (by decide)
    rw [render]
    refine isFieldText_trim_onField hlegible.1 ?_
    rw [trimEnd_append_cons (by decide)]
    exact hvalue.append (htilde.append (solid_trimEnd_natText _))
  | regexp field value =>
    simp only [isLegible, isTidy, Bool.and_eq_true] at hlegible
    have hslash : Solid ['/'] := solid_of_isInert (by decide) (by decide)
    have hvalue := solid_of_isInert hlegible.1.2
      (not_mem_of_hasNoBlank hlegible.2)
    rw [render]
    exact isFieldText_of_isTrimmed hlegible.1.1 (isTrimmed_between (by decide) (by decide) _)
      (hslash.append (hvalue.append hslash))
  | existing field =>
    have hplain := isPlainChar_of_isPlainText hlegible
    have hescaped := escaped_of_isPlainChar hplain
    rw [render]
    refine isFieldText_trim_onField (by decide) (hescaped.solid_trimEnd fun hmem => ?_)
    exact absurd (hplain ' ' hmem) (by decide)
  | ids values =>
    rw [render]
    exact isFieldText_of_isTrimmed (by decide) (isTrimmed_parenthesized _)
      (closed_spaceSeparated_doubleQuoted (List.all_eq_true.mp hlegible)).parenthesized
  | range bounds =>
    simp only [isLegible, isTidy, Bound.all, List.all_cons, List.all_nil, Range.get?,
      Bool.and_eq_true] at hlegible
    obtain ⟨hfield, hgte, hgt, hlte, hlt, _⟩ := hlegible
    rw [render, Range.render]
    refine isFieldText_of_isTrimmed hfield ?_
      (solid_interval ?_ ?_ (closed_intervalEnd hgte hgt) (closed_intervalEnd hlte hlt))
    · rw [interval]
      refine isTrimmed_between ?_ ?_ _
      · split <;> decide
      · split <;> decide
    · split <;> rfl
    · split <;> rfl

theorem IsFieldText.solid {text : List Char} (h : IsFieldText text) : Solid text := by
  obtain ⟨field, requirement, hfield, hsolid, rfl⟩ := h
  have hplain := isPlainChar_of_isPlainText hfield
  have hname : Solid (fieldName field) :=
    (escaped_of_isPlainChar hplain).solid fun hmem => absurd (hplain ' ' hmem) (by decide)
  have hcolon : Solid [':'] := solid_of_isInert (by decide) (by decide)
  exact hname.append (hcolon.append hsolid)

/-- The name of a field stands where an item would have its sign or its parenthesis. -/
theorem IsFieldText.startsItem_eq {text : List Char} (h : IsFieldText text) :
    startsItem text = false := by
  obtain ⟨field, requirement, hfield, _, rfl⟩ := h
  have hplain := isPlainChar_of_isPlainText hfield
  rw [onField, fieldName]
  cases hname : field.toList with
  | nil => rfl
  | cons c rest =>
    have hc : isPlainChar c = true := hplain c (hname ▸ List.mem_cons_self)
    simp [startsItem, ne_of_isPlainChar hc (show isPlainChar '+' = false by decide),
      ne_of_isPlainChar hc (show isPlainChar '-' = false by decide),
      ne_of_isPlainChar hc (show isPlainChar '(' = false by decide)]

theorem IsFieldText.colon_mem {text : List Char} (h : IsFieldText text) : ':' ∈ text := by
  obtain ⟨field, requirement, _, _, rfl⟩ := h
  exact List.mem_append_right _ List.mem_cons_self

/-! ## Compositions -/

theorem startsItem_of_mem_itemTexts {fuzziness : UInt32}
    {must filter mustNot should : List Query} {item : List Char}
    (h : item ∈ itemTexts fuzziness must filter mustNot should) : startsItem item = true := by
  rcases List.mem_append.mp h with h | h
  · simp only [signedTexts, List.mem_append, List.mem_map] at h
    rcases h with (⟨query, _, rfl⟩ | ⟨query, _, rfl⟩) | ⟨query, _, rfl⟩ <;> rfl
  · rcases mem_optionalGroup h with rfl | rfl <;> rfl

/-- If the clauses are closed, so is what is put together of them, and no item is taken apart. -/
theorem solid_of_mem_itemTexts {fuzziness : UInt32} {must filter mustNot should : List Query}
    (hmust : ∀ query ∈ must, Solid (query.clauseText fuzziness))
    (hfilter : ∀ query ∈ filter, Solid (query.clauseText fuzziness))
    (hmustNot : ∀ query ∈ mustNot, Solid (query.clauseText fuzziness))
    (hshould : ∀ query ∈ should, Closed (query.text fuzziness)) {item : List Char}
    (h : item ∈ itemTexts fuzziness must filter mustNot should) : Solid item := by
  have hplus : Solid ['+'] := solid_of_isInert (by decide) (by decide)
  have hminus : Solid ['-'] := solid_of_isInert (by decide) (by decide)
  rcases List.mem_append.mp h with h | h
  · simp only [signedTexts, List.mem_append, List.mem_map] at h
    rcases h with (⟨query, hmem, rfl⟩ | ⟨query, hmem, rfl⟩) | ⟨query, hmem, rfl⟩
    · exact hplus.append (hmust query hmem)
    · exact hplus.append (hfilter query hmem)
    · exact hminus.append (hmustNot query hmem)
  · have hgroup : Solid (parenthesized (alternatives (should.map (text fuzziness)))) := by
      refine (closed_intercalate (closed_of_isInert (by decide)) fun t ht => ?_).parenthesized
      obtain ⟨query, hmem, rfl⟩ := List.mem_map.mp ht
      exact hshould query hmem
    rcases mem_optionalGroup h with rfl | rfl
    · exact hgroup
    · exact hplus.append hgroup

theorem solid_clauseText_of_closed {query : Query} (hlegible : query.isLegible = true)
    {fuzziness : UInt32} (hclosed : Closed (query.text fuzziness)) :
    Solid (query.clauseText fuzziness) := by
  unfold clauseText
  split
  · exact hclosed.parenthesized
  · rename_i hleaf
    exact (isFieldText_text hleaf hlegible fuzziness).solid

/-- A legible query opens and closes its own brackets and quotes. -/
theorem closed_text {query : Query} (hlegible : query.isLegible = true) (fuzziness : UInt32) :
    Closed (query.text fuzziness) := by
  induction query using Query.induction with
  | leaf query hleaf => exact (isFieldText_text hleaf hlegible fuzziness).solid.toClosed
  | bool must filter mustNot should minimum hmust hfilter hmustNot hshould =>
    obtain ⟨cmust, cfilter, cmustNot, cshould⟩ := isTidy_bool.mp hlegible
    have hclause : ∀ {queries : List Query}, (∀ query ∈ queries, query.isLegible = true) →
        (∀ query ∈ queries, query.isLegible = true → Closed (query.text fuzziness)) →
        ∀ query ∈ queries, Solid (query.clauseText fuzziness) := by
      intro queries hall hclosed query hmem
      exact solid_clauseText_of_closed (hall query hmem) (hclosed query hmem (hall query hmem))
    rw [text_bool]
    refine closed_intercalate (closed_of_isInert (by decide)) fun item hitem => ?_
    refine (solid_of_mem_itemTexts (hclause cmust hmust) (hclause cfilter hfilter)
      (hclause cmustNot hmustNot) (fun query hmem => ?_) hitem).toClosed
    exact hshould query hmem (cshould query hmem)

theorem solid_clauseText {query : Query} (hlegible : query.isLegible = true) (fuzziness : UInt32) :
    Solid (query.clauseText fuzziness) :=
  solid_clauseText_of_closed hlegible (closed_text hlegible fuzziness)

/-- The words of a composition are its items; without items there is one empty word. -/
theorem words_text_bool {must filter mustNot should : List Query} {minimum : Option Int32}
    (hlegible : (bool must filter mustNot should minimum).isLegible = true) (fuzziness : UInt32) :
    words ((bool must filter mustNot should minimum).text fuzziness) =
      if itemTexts fuzziness must filter mustNot should = [] then [[]]
      else itemTexts fuzziness must filter mustNot should := by
  obtain ⟨cmust, cfilter, cmustNot, cshould⟩ := isTidy_bool.mp hlegible
  rw [text_bool]
  split
  · rename_i hitems
    rw [hitems]
    rfl
  · rename_i hitems
    refine words_spaceSeparated (fun item hitem => ?_) hitems
    exact solid_of_mem_itemTexts
      (fun query hmem => solid_clauseText (cmust query hmem) fuzziness)
      (fun query hmem => solid_clauseText (cfilter query hmem) fuzziness)
      (fun query hmem => solid_clauseText (cmustNot query hmem) fuzziness)
      (fun query hmem => closed_text (cshould query hmem) fuzziness) hitem

/-- No legible query has the word that separates alternatives. -/
theorem orWord_not_mem_words_text {query : Query} (hlegible : query.isLegible = true)
    (fuzziness : UInt32) : orWord ∉ words (query.text fuzziness) := by
  by_cases hkind : query.kind = .bool
  · cases query with
    | bool must filter mustNot should minimum =>
      rw [words_text_bool hlegible]
      split
      · decide
      · intro hmem
        exact absurd (startsItem_of_mem_itemTexts hmem) (by decide)
    | _ => exact nomatch hkind
  · have hfield := isFieldText_text hkind hlegible fuzziness
    rw [hfield.solid.words_eq, List.mem_singleton]
    intro heq
    exact absurd (heq ▸ hfield.colon_mem) (by decide)

end Query

end SearchQuery
