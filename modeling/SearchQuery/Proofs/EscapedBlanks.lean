import Mathlib.Data.List.Induction
import Mathlib.Data.List.TakeWhile
import SearchQuery.Proofs.Balance
import SearchQuery.Proofs.Emission
import SearchQuery.Proofs.NumberText

/-!
# Escaped blanks at the end of a clause

A blank that a backslash covers is part of a value, but trimming knows nothing of backslashes: it
takes the blank and leaves the backslash, which then covers what stands behind the clause, be it a
space or a parenthesis.  This befalls the texts that a clause ends with as they stand, a pattern and
the field of `existing`, and no other.

* `EndsInEscapedBlank` is what such a text looks like, and `covers_trimEnd_iff` says that trimming
  leaves a backslash dangling there and nowhere else.
* `exists_render_eq_onField` lists what the clauses end with, and `covers_text_iff` tells which of
  them are cut.
* `balanced_text` puts balanced leaves together.
-/

namespace SearchQuery

namespace Text

/-! ## Trimming and covering -/

/-- The text ends in an escaped blank: behind a backslash that is not covered stand blanks, at least
one of them, and nothing else. -/
def EndsInEscapedBlank (text : List Char) : Prop :=
  ∃ before after, text = before ++ '\\' :: after ∧ covers false before = false ∧ after ≠ [] ∧
    ∀ c ∈ after, isBlank c = true

theorem ne_backslash_of_isBlank {c : Char} (hc : isBlank c = true) : c ≠ '\\' := by
  rintro rfl
  exact nomatch hc

theorem trimEnd_eq_nil {text : List Char} (h : ∀ c ∈ text, isBlank c = true) :
    trimEnd text = [] := by
  rw [trimEnd, List.reverse_eq_nil_iff, List.dropWhile_eq_nil_iff]
  exact fun c hc => h c (List.mem_reverse.mp hc)

theorem exists_eq_trimEnd_append (text : List Char) :
    ∃ blanks, (∀ c ∈ blanks, isBlank c = true) ∧ text = trimEnd text ++ blanks := by
  refine ⟨(text.reverse.takeWhile isBlank).reverse, fun c hc => ?_, ?_⟩
  · exact List.mem_takeWhile_imp (List.mem_reverse.mp hc)
  · rw [trimEnd, ← List.reverse_append, List.takeWhile_append_dropWhile, List.reverse_reverse]

theorem exists_eq_append_trimStart (text : List Char) :
    ∃ blanks, (∀ c ∈ blanks, isBlank c = true) ∧ text = blanks ++ trimStart text :=
  ⟨text.takeWhile isBlank, fun _ hc => List.mem_takeWhile_imp hc,
    List.takeWhile_append_dropWhile.symm⟩

/-- A text covers what stands behind it if it ends in a backslash that is not covered. -/
theorem covers_eq_true_iff {text : List Char} :
    covers false text = true ↔ ∃ before, text = before ++ ['\\'] ∧ covers false before = false := by
  induction text using List.reverseRecOn with
  | nil => simp
  | append_singleton before c _ =>
    rw [covers_append]
    simp [covers, and_comm]

/-- Trimming leaves a backslash dangling exactly where the text ends in an escaped blank. -/
theorem covers_trimEnd_iff {text : List Char} (h : covers false text = false) :
    covers false (trimEnd text) = true ↔ EndsInEscapedBlank text := by
  rw [covers_eq_true_iff]
  constructor
  · rintro ⟨before, hkept, hbefore⟩
    obtain ⟨blanks, hblanks, htext⟩ := exists_eq_trimEnd_append text
    rw [hkept, List.append_assoc, List.singleton_append] at htext
    refine ⟨before, blanks, htext, hbefore, ?_, hblanks⟩
    rintro rfl
    rw [htext, covers_eq_true_iff.mpr ⟨before, rfl, hbefore⟩] at h
    exact nomatch h
  · rintro ⟨before, after, rfl, hbefore, _, hafter⟩
    refine ⟨before, ?_, hbefore⟩
    rw [trimEnd_append_cons (by decide), trimEnd_eq_nil hafter]

/-! ## Balance -/

theorem mem_of_mem_uncovered {c : Char} {covered : Bool} {text : List Char}
    (h : c ∈ uncovered covered text) : c ∈ text := by
  induction text generalizing covered with
  | nil => exact h
  | cons d text ih =>
    rw [uncovered] at h
    split at h
    · exact List.mem_cons_of_mem d (ih h)
    · split at h
      · exact List.mem_cons_of_mem d (ih h)
      · exact List.mem_cons.mpr ((List.mem_cons.mp h).imp_right ih)

section Blanks

variable {blanks : List Char} (hblanks : ∀ c ∈ blanks, isBlank c = true)

include hblanks

theorem covers_blanks_append (text : List Char) :
    covers false (blanks ++ text) = covers false text := by
  rw [covers_append, covers_of_not_mem]
  exact fun hmem => ne_backslash_of_isBlank (hblanks _ hmem) rfl

theorem count_uncovered_blanks {c : Char} (hc : isBlank c = false) (covered : Bool) :
    (uncovered covered blanks).count c = 0 := by
  refine List.count_eq_zero.mpr fun hmem => ?_
  rw [hblanks c (mem_of_mem_uncovered hmem)] at hc
  exact nomatch hc

theorem occurrences_blanks_append {c : Char} (hc : isBlank c = false) (text : List Char) :
    occurrences c (blanks ++ text) = occurrences c text := by
  have hcovers : covers false blanks = false := by simpa using covers_blanks_append hblanks []
  rw [occurrences_append hcovers, occurrences, count_uncovered_blanks hblanks hc, Nat.zero_add]

theorem occurrences_append_blanks {c : Char} (hc : isBlank c = false) (text : List Char) :
    occurrences c (text ++ blanks) = occurrences c text := by
  rw [occurrences, uncovered_append, List.count_append, count_uncovered_blanks hblanks hc,
    Nat.add_zero, occurrences]

end Blanks

/-- Trimming takes no parenthesis. -/
theorem occurrences_trim {c : Char} (hc : isBlank c = false) (text : List Char) :
    occurrences c (trim text) = occurrences c text := by
  obtain ⟨before, hbefore, hstart⟩ := exists_eq_append_trimStart text
  obtain ⟨after, hafter, hend⟩ := exists_eq_trimEnd_append (trimStart text)
  calc occurrences c (trim text)
    _ = occurrences c (trimStart text) := by
        rw [trim, ← occurrences_append_blanks hafter hc, ← hend]
    _ = occurrences c text := by
        rw [← occurrences_blanks_append hbefore hc, ← hstart]

/-- A balanced text stays balanced when it is trimmed, unless its end is cut off. -/
theorem Balanced.trim {text : List Char} (h : Balanced text)
    (hcovers : covers false (trim text) = false) : Balanced (trim text) where
  closed_le kept hkept := by
    obtain ⟨before, hbefore, hstart⟩ := exists_eq_append_trimStart text
    obtain ⟨after, _, hend⟩ := exists_eq_trimEnd_append (trimStart text)
    have hprefix : before ++ kept <+: text := by
      rw [hstart, List.prefix_append_right_inj, hend]
      exact hkept.trans (List.prefix_append _ _)
    have hle := h.closed_le _ hprefix
    rwa [occurrences_blanks_append hbefore (by decide),
      occurrences_blanks_append hbefore (by decide)] at hle
  closed_eq := by
    rw [occurrences_trim (by decide), occurrences_trim (by decide), h.closed_eq]
  covers_eq := hcovers

/-- Parentheses close around a text only if it covers nothing that stands behind it. -/
theorem covers_of_balanced_parenthesized {text : List Char}
    (heq : occurrences ')' text = occurrences '(' text) (h : Balanced (parenthesized text)) :
    covers false text = false := by
  by_contra hcovers
  rw [Bool.not_eq_false] at hcovers
  have huncovered : uncovered false (parenthesized text) = '(' :: uncovered false text := by
    rw [parenthesized, uncovered_cons_of_ne (by decide), uncovered_append, hcovers]
    simp [uncovered]
  have hclosed := h.closed_eq
  rw [occurrences, occurrences, huncovered, List.count_cons_self, List.count_cons_of_ne (by decide),
    ← occurrences, ← occurrences] at hclosed
  omega

end Text

open Text

namespace Query

/-! ## Leaves -/

/-- The text that a clause ends with as it stands, if there is one. -/
def rawEnd? : Query → Option (List Char)
  | wildcard _ value => some value.toList
  | existing field => some (fieldName field)
  | _ => none

theorem covers_onField (field : String) (requirement : List Char) :
    covers false (onField field requirement) = covers false requirement := by
  rw [onField, covers_append, covers_cons_of_ne (by decide)]

theorem covers_trim_onField (field : String) (requirement : List Char) :
    covers false (trim (onField field requirement)) = covers false (trimEnd requirement) := by
  rw [trim_onField, covers_append, covers_cons_of_ne (by decide)]

/-- Every clause that is no composition is a field with a requirement.  The requirement is escaped
where it does not end in a character that is not blank, unless it stands there as it is. -/
theorem exists_render_eq_onField {leaf : Query} (hkind : leaf.kind ≠ .bool) (fuzziness : UInt32) :
    ∃ field requirement, leaf.render fuzziness = onField field requirement ∧
      (leaf.rawEnd? = some requirement ∨
        leaf.rawEnd? = none ∧ (Escaped requirement ∨ trimEnd requirement = requirement)) := by
  cases leaf with
  | bool => exact absurd rfl hkind
  | term field value => exact ⟨field, _, rfl, .inr ⟨rfl, .inl (escaped_escape _)⟩⟩
  | terms field values | matching field value =>
    exact ⟨field, _, rfl, .inr ⟨rfl, .inr (isTrimmed_parenthesized _).trimEnd_eq⟩⟩
  | ids values => exact ⟨"_id", _, rfl, .inr ⟨rfl, .inr (isTrimmed_parenthesized _).trimEnd_eq⟩⟩
  | phrase field value =>
    have htrimmed : IsTrimmed (doubleQuoted value.toList) :=
      isTrimmed_between (by decide) (by decide) _
    exact ⟨field, _, rfl, .inr ⟨rfl, .inr htrimmed.trimEnd_eq⟩⟩
  | beginning field value =>
    exact ⟨field, _, rfl, .inr ⟨rfl, .inr (trimEnd_concat_of_not_isBlank (by decide) _)⟩⟩
  | wildcard field value => exact ⟨field, _, rfl, .inl rfl⟩
  | fuzzy field value edits =>
    refine ⟨field, _, rfl, .inr ⟨rfl, .inr ?_⟩⟩
    rw [trimEnd_append_cons (by decide), (Number.isNumberText_natText _).isTrimmed.trimEnd_eq]
  | regexp field value =>
    have htrimmed : IsTrimmed ('/' :: (value.toList ++ ['/'])) :=
      isTrimmed_between (by decide) (by decide) _
    exact ⟨field, _, rfl, .inr ⟨rfl, .inr htrimmed.trimEnd_eq⟩⟩
  | existing field => exact ⟨"_exists_", _, rfl, .inl rfl⟩
  | range bounds =>
    refine ⟨bounds.field, _, rfl, .inr ⟨rfl, .inr (IsTrimmed.trimEnd_eq ?_)⟩⟩
    exact isTrimmed_between (by split <;> decide) (by split <;> decide) _

/-- A leaf that covers nothing behind it does so trimmed, too, unless it ends in a text that stands
there as it is and ends in an escaped blank. -/
theorem covers_text_iff {leaf : Query} (hkind : leaf.kind ≠ .bool) {fuzziness : UInt32}
    (h : covers false (leaf.render fuzziness) = false) :
    covers false (leaf.text fuzziness) = false ↔ ∀ raw ∈ leaf.rawEnd?, ¬EndsInEscapedBlank raw := by
  obtain ⟨field, requirement, hrender, hend⟩ := exists_render_eq_onField hkind fuzziness
  rw [hrender, covers_onField] at h
  rw [text, hrender, covers_trim_onField]
  rcases hend with hraw | ⟨hnone, hescaped | htrimmed⟩
  · simp only [hraw, Option.mem_some_iff, forall_eq', ← covers_trimEnd_iff h, Bool.not_eq_true]
  · simp [hnone, hescaped.trimEnd.covers_eq]
  · simp [hnone, htrimmed, h]

/-! ## Trees -/

mutual

/-- The leaves of a query, in the order in which they are written. -/
def leaves : Query → List Query
  | bool must filter mustNot should _ =>
      allLeaves must ++ allLeaves filter ++ allLeaves mustNot ++ allLeaves should
  | leaf => [leaf]

/-- The leaves of some queries. -/
def allLeaves : List Query → List Query
  | [] => []
  | query :: rest => query.leaves ++ allLeaves rest

end

theorem leaves_of_kind_ne {query : Query} (hkind : query.kind ≠ .bool) :
    query.leaves = [query] := by
  cases query with
  | bool => exact absurd rfl hkind
  | _ => rfl

theorem mem_allLeaves {leaf : Query} {queries : List Query} :
    leaf ∈ allLeaves queries ↔ ∃ query ∈ queries, leaf ∈ query.leaves := by
  induction queries with
  | nil => simp [allLeaves]
  | cons query rest ih => simp [allLeaves, ih]

/-- The leaves of a composition are those of its clauses. -/
theorem mem_leaves_build {clauses : BoolClauses} {leaf : Query} :
    leaf ∈ clauses.build.leaves ↔
      ∃ occurrence, ∃ query ∈ clauses.get occurrence, leaf ∈ query.leaves := by
  simp only [BoolClauses.build, leaves, List.mem_append, mem_allLeaves]
  constructor
  · rintro (((h | h) | h) | h)
    · exact ⟨.must, h⟩
    · exact ⟨.filter, h⟩
    · exact ⟨.mustNot, h⟩
    · exact ⟨.should, h⟩
  · rintro ⟨occurrence, h⟩
    cases occurrence with
    | must => exact .inl (.inl (.inl h))
    | filter => exact .inl (.inl (.inr h))
    | mustNot => exact .inl (.inr h)
    | should => exact .inr h

theorem kind_ne_of_mem_leaves {leaf query : Query} (h : leaf ∈ query.leaves) :
    leaf.kind ≠ .bool := by
  induction query using Query.induction_build with
  | leaf query hkind =>
    rw [leaves_of_kind_ne hkind, List.mem_singleton] at h
    rwa [h]
  | build clauses ih =>
    obtain ⟨occurrence, query, hmem, hleaf⟩ := mem_leaves_build.mp h
    exact ih occurrence query hmem hleaf

theorem balanced_clauseText {query : Query} {fuzziness : UInt32}
    (h : Balanced (query.text fuzziness)) : Balanced (query.clauseText fuzziness) := by
  unfold clauseText
  split
  · exact h.parenthesized
  · exact h

theorem balanced_text_build {clauses : BoolClauses} {fuzziness : UInt32}
    (h : ∀ occurrence, ∀ query ∈ clauses.get occurrence, Balanced (query.text fuzziness)) :
    Balanced (clauses.build.text fuzziness) := by
  have hsign (sign : Char) (hsign : isFlat sign = true) (occurrence : Occurrence) :
      ∀ query ∈ clauses.get occurrence, Balanced (sign :: query.clauseText fuzziness) := by
    intro query hmem
    have hflat : Balanced [sign] := balanced_of_isFlat (by simp [hsign])
    exact hflat.append (balanced_clauseText (h occurrence query hmem))
  have hgroup : Balanced (parenthesized (alternatives (clauses.should.map (text fuzziness)))) :=
    (balanced_intercalate (balanced_of_isFlat (by decide))
      (List.forall_mem_map.mpr (h .should))).parenthesized
  rw [BoolClauses.build, text_bool, spaceSeparated]
  refine balanced_intercalate (balanced_of_isFlat (by decide)) ?_
  simp only [itemTexts, signedTexts, List.forall_mem_append, List.forall_mem_map]
  refine ⟨⟨⟨hsign '+' (by decide) .must, hsign '+' (by decide) .filter⟩,
    hsign '-' (by decide) .mustNot⟩, fun item hitem => ?_⟩
  have hplus : Balanced ['+'] := balanced_of_isFlat (by decide)
  rcases mem_optionalGroup hitem with rfl | rfl
  · exact hgroup
  · exact hplus.append hgroup

/-- Parentheses pair up in the text of a query if they do in those of its leaves. -/
theorem balanced_text {query : Query} {fuzziness : UInt32}
    (h : ∀ leaf ∈ query.leaves, Balanced (leaf.text fuzziness)) :
    Balanced (query.text fuzziness) := by
  induction query using Query.induction_build with
  | leaf query hkind => exact h query (by simp [leaves_of_kind_ne hkind])
  | build clauses ih =>
    refine balanced_text_build fun occurrence query hmem => ih occurrence query hmem ?_
    exact fun leaf hleaf => h leaf (mem_leaves_build.mpr ⟨occurrence, query, hmem, hleaf⟩)

/-- A leaf that leaves no backslash dangling does so trimmed, too, if and only if no text that
stands in it as it is ends the leaf with an escaped blank.  If no leaf of a query ends so and
parentheses pair up in every leaf, then they do in the query string.  And they never do where such
a leaf stands alone in a group. -/
theorem balanced_emitWith (fuzziness : UInt32) :
    (∀ leaf : Query, leaf.kind ≠ .bool → covers false (leaf.render fuzziness) = false →
      (covers false (leaf.emitWith fuzziness).toList = false ↔
        ∀ raw ∈ leaf.rawEnd?, ¬EndsInEscapedBlank raw)) ∧
    (∀ root : Query, (∀ leaf ∈ root.leaves, Balanced (leaf.render fuzziness)) →
      (∀ leaf ∈ root.leaves, ∀ raw ∈ leaf.rawEnd?, ¬EndsInEscapedBlank raw) →
      Balanced (root.emitWith fuzziness).toList) ∧
    ∀ leaf : Query, leaf.kind ≠ .bool → Balanced (leaf.render fuzziness) →
      (Balanced ((bool [] [] [] [leaf] none).emitWith fuzziness).toList ↔
        ∀ raw ∈ leaf.rawEnd?, ¬EndsInEscapedBlank raw) := by
  simp only [toList_emitWith]
  have hroot : ∀ root : Query, (∀ leaf ∈ root.leaves, Balanced (leaf.render fuzziness)) →
      (∀ leaf ∈ root.leaves, ∀ raw ∈ leaf.rawEnd?, ¬EndsInEscapedBlank raw) →
      Balanced (root.text fuzziness) := by
    intro root hrenders hraws
    refine balanced_text fun leaf hleaf => (hrenders leaf hleaf).trim ?_
    exact (covers_text_iff (kind_ne_of_mem_leaves hleaf) (hrenders leaf hleaf).covers_eq).mpr
      (hraws leaf hleaf)
  refine ⟨fun leaf hkind h => covers_text_iff hkind h, hroot, fun leaf hkind h => ⟨?_, ?_⟩⟩
  · intro hgroup
    have htext : (bool [] [] [] [leaf] none).text fuzziness =
        parenthesized (leaf.text fuzziness) := by
      rw [text_bool]
      simp [itemTexts, signedTexts, optionalGroup, spaceSeparated, alternatives]
    rw [htext] at hgroup
    refine (covers_text_iff hkind h.covers_eq).mp (covers_of_balanced_parenthesized ?_ hgroup)
    rw [text, occurrences_trim (by decide), occurrences_trim (by decide), h.closed_eq]
  · intro hraw
    have hleaves : (bool [] [] [] [leaf] none).leaves = [leaf] := by
      simp [leaves, allLeaves, leaves_of_kind_ne hkind]
    exact hroot _ (by simpa [hleaves] using h) (by simpa [hleaves] using hraw)

/-- A pattern with an escaped blank inside and a blank at its end, and a term that ends in a
backslash and a blank. -/
theorem balanced_emitWith_innerBlank :
    let pattern := wildcard "f" "a\\ b "
    let root := bool [pattern] [] [term "g" "(\\ "] [] none
    pattern.kind ≠ .bool ∧ covers false (pattern.render 2) = false ∧
      (∀ leaf ∈ root.leaves, Balanced (leaf.render 2)) ∧
      (∀ leaf ∈ root.leaves, ∀ raw ∈ leaf.rawEnd?, ¬EndsInEscapedBlank raw) ∧
      pattern.emitWith 2 = "f:a\\ b" ∧ covers false (pattern.emitWith 2).toList = false ∧
      root.emitWith 2 = "+f:a\\ b -g:\\(\\\\" ∧ Balanced (root.emitWith 2).toList ∧
      Balanced ((bool [] [] [] [pattern] none).emitWith 2).toList := by
  intro pattern root
  have hkind : pattern.kind ≠ .bool := by decide
  have hcovers : covers false (pattern.render 2) = false := by decide
  have hpattern : Balanced (pattern.render 2) := balanced_of_not_mem hcovers (by decide) (by decide)
  have hterm : Balanced ((term "g" "(\\ ").render 2) :=
    balanced_of_not_mem (by decide) (by decide) (by decide)
  have hleaves : root.leaves = [pattern, term "g" "(\\ "] := rfl
  have hrenders : ∀ leaf ∈ root.leaves, Balanced (leaf.render 2) := by
    simpa only [hleaves, List.forall_mem_cons] using ⟨hpattern, hterm, List.forall_mem_nil _⟩
  have hraw : ∀ raw ∈ pattern.rawEnd?, ¬EndsInEscapedBlank raw := by
    rintro raw ⟨⟩
    rw [← covers_trimEnd_iff (by decide)]
    decide
  have hraws : ∀ leaf ∈ root.leaves, ∀ raw ∈ leaf.rawEnd?, ¬EndsInEscapedBlank raw := by
    simpa only [hleaves, List.forall_mem_cons] using ⟨hraw, nofun, List.forall_mem_nil _⟩
  obtain ⟨hleaf, hroot, hgroup⟩ := balanced_emitWith 2
  exact ⟨hkind, hcovers, hrenders, hraws, by decide +kernel, (hleaf pattern hkind hcovers).mpr hraw,
    by decide +kernel, hroot root hrenders hraws, (hgroup pattern hkind hpattern).mpr hraw⟩

/-- The blank at the end of a pattern is escaped, but only its backslash is left, and covers the
parenthesis of the group. -/
theorem covers_emit_wildcard_blank :
    let pattern := wildcard "f" "a\\ "
    let group := bool [] [] [] [pattern] none
    Balanced (pattern.render 2) ∧ pattern.emit = "f:a\\" ∧
      covers false pattern.emit.toList = true ∧ group.emit = "(f:a\\)" ∧
      ¬Balanced group.emit.toList := by
  refine ⟨balanced_of_not_mem (by decide) (by decide) (by decide), by decide +kernel,
    by decide +kernel, by decide +kernel, fun h => ?_⟩
  have hne : occurrences ')' "(f:a\\)".toList ≠ occurrences '(' "(f:a\\)".toList := by decide
  exact hne h.closed_eq

end Query

end SearchQuery
