import Mathlib.Data.List.Forall2
import SearchQuery.Proofs.Covering
import SearchQuery.Proofs.Emission

/-!
# Values and the skeleton of a query string

The skeleton of a query string is what a reader of the syntax sees of its structure: the
structural characters that are not covered by a backslash, in order.  The values that are escaped
have no part in it, whatever the other texts of the query are.

`SameSkeleton` compares two texts from one start, and `Interchangeable` from every start: texts
that are not escaped may end with a backslash that covers whatever stands behind them.  Only after
a field's colon is the start known, and there the values stand.
-/

namespace SearchQuery

open Text

/-- The characters that give a query string its structure. -/
def structuralChars : List Char :=
  ['+', '-', '!', '(', ')', '{', '}', '[', ']', '^', '"', '~', '*', '?', ':', '/']

/-- The structural characters that are not covered, in order. -/
def skeletonFrom (covered : Bool) (text : List Char) : List Char :=
  (uncovered covered text).filter (· ∈ structuralChars)

/-- The skeleton of a query string. -/
def skeleton (text : String) : List Char :=
  skeletonFrom false text.toList

/-- The structural characters are the operators of one character. -/
theorem mem_structuralChars_iff {c : Char} : c ∈ structuralChars ↔ .single c ∈ operators := by
  simp [structuralChars, operators]

theorem skeletonFrom_append (covered : Bool) (text rest : List Char) :
    skeletonFrom covered (text ++ rest) =
      skeletonFrom covered text ++ skeletonFrom (covers covered text) rest := by
  simp only [skeletonFrom, uncovered_append, List.filter_append]

theorem skeletonFrom_of_escaped {text : List Char} (h : Escaped text) :
    skeletonFrom false text = [] := by
  refine List.filter_eq_nil_iff.mpr fun c hc => ?_
  rw [decide_eq_true_eq, mem_structuralChars_iff]
  exact h.not_single_mem hc

/-! ## Two texts -/

/-- Two texts that show the same structure from one start, and leave it the same way. -/
structure SameSkeleton (covered : Bool) (first second : List Char) : Prop where
  skeleton_eq : skeletonFrom covered first = skeletonFrom covered second
  covers_eq : covers covered first = covers covered second

theorem SameSkeleton.refl (covered : Bool) (text : List Char) : SameSkeleton covered text text where
  skeleton_eq := rfl
  covers_eq := rfl

theorem SameSkeleton.append {covered : Bool} {first second rest rest' : List Char}
    (h : SameSkeleton covered first second)
    (hrest : SameSkeleton (covers covered first) rest rest') :
    SameSkeleton covered (first ++ rest) (second ++ rest') where
  skeleton_eq := by
    rw [skeletonFrom_append, skeletonFrom_append, h.skeleton_eq, hrest.skeleton_eq, h.covers_eq]
  covers_eq := by rw [covers_append, covers_append, hrest.covers_eq, h.covers_eq]

theorem sameSkeleton_of_escaped {first second : List Char} (h : Escaped first)
    (h' : Escaped second) : SameSkeleton false first second where
  skeleton_eq := by rw [skeletonFrom_of_escaped h, skeletonFrom_of_escaped h']
  covers_eq := by rw [h.covers_eq, h'.covers_eq]

/-- Two texts that show the same structure wherever they stand. -/
def Interchangeable (first second : List Char) : Prop :=
  ∀ covered, SameSkeleton covered first second

theorem Interchangeable.refl (text : List Char) : Interchangeable text text :=
  fun covered => .refl covered text

theorem Interchangeable.append {first second rest rest' : List Char}
    (h : Interchangeable first second) (hrest : Interchangeable rest rest') :
    Interchangeable (first ++ rest) (second ++ rest') :=
  fun covered => (h covered).append (hrest _)

theorem Interchangeable.cons (c : Char) {first second : List Char}
    (h : Interchangeable first second) : Interchangeable (c :: first) (c :: second) :=
  (Interchangeable.refl [c]).append h

theorem Interchangeable.parenthesized {first second : List Char}
    (h : Interchangeable first second) :
    Interchangeable (parenthesized first) (parenthesized second) :=
  (h.append (.refl [')'])).cons '('

theorem interchangeable_intercalate (between : List Char) {texts texts' : List (List Char)}
    (h : List.Forall₂ Interchangeable texts texts') :
    Interchangeable (between.intercalate texts) (between.intercalate texts') := by
  induction h with
  | nil => exact .refl []
  | cons hfirst hrest ih =>
    cases hrest with
    | nil =>
      rw [List.intercalate_singleton, List.intercalate_singleton]
      exact hfirst
    | cons hnext hrest =>
      rw [List.intercalate_cons_cons, List.intercalate_cons_cons]
      exact (hfirst.append (.refl between)).append ih

/-- What is required of a field stands behind its colon, so it is read from an uncovered start,
whatever the name of the field ends with. -/
theorem interchangeable_trim_onField (field : String) {requirement requirement' : List Char}
    (h : SameSkeleton false (trimEnd requirement) (trimEnd requirement')) :
    Interchangeable (trim (onField field requirement)) (trim (onField field requirement')) := by
  intro covered
  rw [Query.trim_onField, Query.trim_onField]
  refine (Interchangeable.refl _ covered).append ?_
  refine (Interchangeable.refl [':'] _).append ?_
  rw [covers_cons_of_ne (by decide), covers_nil]
  exact h

/-! ## Queries without values -/

namespace Query

mutual

/-- The query with nothing for every value that is written escaped. -/
def withoutValues : Query → Query
  | term field _ => term field ""
  | terms field values => terms field (values.map fun _ => "")
  | beginning field _ => beginning field ""
  | fuzzy field _ edits => fuzzy field "" edits
  | bool must filter mustNot should minimum =>
      bool (allWithoutValues must) (allWithoutValues filter) (allWithoutValues mustNot)
        (allWithoutValues should) minimum
  | query => query

/-- Some queries with nothing for every value that is written escaped. -/
def allWithoutValues : List Query → List Query
  | [] => []
  | query :: rest => query.withoutValues :: allWithoutValues rest

end

theorem allWithoutValues_eq_map (queries : List Query) :
    allWithoutValues queries = queries.map withoutValues := by
  induction queries with
  | nil => rfl
  | cons query rest ih => rw [allWithoutValues, ih, List.map_cons]

@[simp] theorem kind_withoutValues (query : Query) : query.withoutValues.kind = query.kind := by
  cases query <;> rfl

theorem interchangeable_trim_escape (field : String) (value value' : List Char) :
    Interchangeable (trim (onField field (escape value)))
      (trim (onField field (escape value'))) :=
  interchangeable_trim_onField field
    (sameSkeleton_of_escaped (escaped_escape value).trimEnd (escaped_escape value').trimEnd)

/-- A value may be followed by text of the clause. -/
theorem interchangeable_trim_escape_append (field : String) (value value' : List Char) {c : Char}
    (hc : isBlank c = false) (rest : List Char) :
    Interchangeable (trim (onField field (escape value ++ c :: rest)))
      (trim (onField field (escape value' ++ c :: rest))) := by
  refine interchangeable_trim_onField field ?_
  rw [trimEnd_append_cons hc, trimEnd_append_cons hc]
  refine (sameSkeleton_of_escaped (escaped_escape value) (escaped_escape value')).append ?_
  exact .refl _ _

theorem interchangeable_text_leaf {query : Query} (hleaf : query.kind ≠ .bool)
    (fuzziness : UInt32) :
    Interchangeable (query.text fuzziness) (query.withoutValues.text fuzziness) := by
  cases query with
  | bool => exact absurd rfl hleaf
  | term field value => exact interchangeable_trim_escape field value.toList []
  | terms field values =>
    refine interchangeable_trim_onField field ?_
    rw [(isTrimmed_parenthesized _).trimEnd_eq, (isTrimmed_parenthesized _).trimEnd_eq]
    refine (Interchangeable.refl ['('] false).append ?_
    refine SameSkeleton.append ?_ (.refl _ [')'])
    exact sameSkeleton_of_escaped (escaped_alternatives_escape values)
      (escaped_alternatives_escape _)
  | beginning field value =>
    exact interchangeable_trim_escape_append field value.toList [] (by decide) []
  | fuzzy field value edits =>
    exact interchangeable_trim_escape_append field value.toList [] (by decide) _
  | _ => exact .refl _

/-! ## Compositions -/

theorem interchangeable_clauseText {query : Query} {fuzziness : UInt32}
    (h : Interchangeable (query.text fuzziness) (query.withoutValues.text fuzziness)) :
    Interchangeable (query.clauseText fuzziness) (query.withoutValues.clauseText fuzziness) := by
  rw [clauseText, clauseText, kind_withoutValues]
  split
  · exact h.parenthesized
  · exact h

/-- Clauses that are written one by one, each with and without its values. -/
theorem forall₂_map_allWithoutValues {write : Query → List Char} {queries : List Query}
    (h : ∀ query ∈ queries, Interchangeable (write query) (write query.withoutValues)) :
    List.Forall₂ Interchangeable (queries.map write) ((allWithoutValues queries).map write) := by
  rw [allWithoutValues_eq_map, List.map_map, List.forall₂_map_left_iff,
    List.forall₂_map_right_iff, List.forall₂_same]
  exact h

/-- Whether a group is there, and whether it has a sign, depends on how many items there are. -/
theorem forall₂_optionalGroup {signed signed' optional optional' : List (List Char)}
    (hsigned : List.Forall₂ Interchangeable signed signed')
    (hoptional : List.Forall₂ Interchangeable optional optional') :
    List.Forall₂ Interchangeable (optionalGroup signed optional)
      (optionalGroup signed' optional') := by
  have hgroup : Interchangeable (parenthesized (alternatives optional))
      (parenthesized (alternatives optional')) :=
    (interchangeable_intercalate _ hoptional).parenthesized
  cases hoptional with
  | nil => exact .nil
  | cons =>
    cases hsigned with
    | nil => exact .cons hgroup .nil
    | cons => exact .cons (hgroup.cons '+') .nil

theorem forall₂_itemTexts {fuzziness : UInt32} {must filter mustNot should : List Query}
    (hmust : ∀ query ∈ must,
      Interchangeable (query.text fuzziness) (query.withoutValues.text fuzziness))
    (hfilter : ∀ query ∈ filter,
      Interchangeable (query.text fuzziness) (query.withoutValues.text fuzziness))
    (hmustNot : ∀ query ∈ mustNot,
      Interchangeable (query.text fuzziness) (query.withoutValues.text fuzziness))
    (hshould : ∀ query ∈ should,
      Interchangeable (query.text fuzziness) (query.withoutValues.text fuzziness)) :
    List.Forall₂ Interchangeable (itemTexts fuzziness must filter mustNot should)
      (itemTexts fuzziness (allWithoutValues must) (allWithoutValues filter)
        (allWithoutValues mustNot) (allWithoutValues should)) := by
  have hsigned : List.Forall₂ Interchangeable (signedTexts fuzziness must filter mustNot)
      (signedTexts fuzziness (allWithoutValues must) (allWithoutValues filter)
        (allWithoutValues mustNot)) := by
    refine List.rel_append (List.rel_append ?_ ?_) ?_
    · exact forall₂_map_allWithoutValues fun query hmem =>
        (interchangeable_clauseText (hmust query hmem)).cons '+'
    · exact forall₂_map_allWithoutValues fun query hmem =>
        (interchangeable_clauseText (hfilter query hmem)).cons '+'
    · exact forall₂_map_allWithoutValues fun query hmem =>
        (interchangeable_clauseText (hmustNot query hmem)).cons '-'
  refine List.rel_append hsigned (forall₂_optionalGroup hsigned ?_)
  exact forall₂_map_allWithoutValues hshould

/-- A query has the structure that it has without its values, wherever its text stands. -/
theorem interchangeable_text_withoutValues (query : Query) (fuzziness : UInt32) :
    Interchangeable (query.text fuzziness) (query.withoutValues.text fuzziness) := by
  induction query using Query.induction with
  | leaf query hleaf => exact interchangeable_text_leaf hleaf fuzziness
  | bool must filter mustNot should minimum hmust hfilter hmustNot hshould =>
    rw [withoutValues, text_bool, text_bool]
    exact interchangeable_intercalate _ (forall₂_itemTexts hmust hfilter hmustNot hshould)

/-- Two queries that differ in escaped values only have the same skeleton. -/
theorem skeleton_emitWith_eq {first second : Query}
    (h : first.withoutValues = second.withoutValues) (fuzziness : UInt32) :
    skeleton (first.emitWith fuzziness) = skeleton (second.emitWith fuzziness) := by
  have hvalues : ∀ query : Query, skeletonFrom false (query.text fuzziness) =
      skeletonFrom false (query.withoutValues.text fuzziness) := fun query =>
    (interchangeable_text_withoutValues query fuzziness false).skeleton_eq
  rw [skeleton, skeleton, toList_emitWith, toList_emitWith, hvalues first, hvalues second, h]

/-- A value of three sorts of clauses, one of them behind a dangling backslash. -/
def withValue (value : String) : Query :=
  .bool [.term "a\\" value] [.beginning "b" value] []
    [.bool [] [] [.terms "c" [value, "x"]] [] none, .wildcard "d" "\\"] none

theorem skeleton_emitWith_withValue :
    (withValue "").withoutValues = (withValue "\\) OR (d:* ").withoutValues ∧
      skeleton ((withValue "").emitWith 2) =
        skeleton ((withValue "\\) OR (d:* ").emitWith 2) := by
  have hvalues : (withValue "").withoutValues = (withValue "\\) OR (d:* ").withoutValues := rfl
  exact ⟨hvalues, skeleton_emitWith_eq hvalues 2⟩

end Query

end SearchQuery
