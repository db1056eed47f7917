import SearchQuery.Proofs.AcceptedDocuments
import SearchQuery.Proofs.NumberText
import SearchQuery.Proofs.Operands

/-!
# The grammar of query strings

The query strings that are documented, as a grammar over the clauses of one field.

```text
query    a clause of one field, or items and at most one group after them, at least one in all
clause   a clause of one field, or (query)
item     +clause or -clause
group    (query OR query ...) or +(query OR query ...)
```

Every text of the grammar is gapless (`Derives.gapless`).  A composition without clauses has the
empty text, which is none of the grammar, and a gap is left where it is nested.  So a query whose
fields and values are plain names has a query string of the grammar exactly if every composition
in it has a clause: `derives_text` is one direction, and `isFilled_of_gapless` the other.
-/

namespace SearchQuery

open Text Query

/-! ## Clauses of one field -/

/-- What a clause can require of its field. -/
inductive IsRequirement : List Char → Prop where
  | value {value : String} (h : isPlainName value = true) : IsRequirement value.toList
  | anyOf {values : List String} (hne : values ≠ [])
      (h : ∀ value ∈ values, isPlainName value = true) :
      IsRequirement (parenthesized (alternatives (values.map String.toList)))
  | phrase {value : String} (h : isPlainName value = true) :
      IsRequirement (doubleQuoted value.toList)
  | beginning {value : String} (h : isPlainName value = true) :
      IsRequirement (value.toList ++ ['*'])
  | near {value : String} (h : isPlainName value = true) (edits : Nat) :
      IsRequirement (value.toList ++ '~' :: Number.natText edits)
  | pattern {value : String} (h : isPlainName value = true) :
      IsRequirement ('/' :: (value.toList ++ ['/']))
  | interval {opening closing : Char} {low high : Option String}
      (hopening : opening = '[' ∨ opening = '{') (hclosing : closing = ']' ∨ closing = '}')
      (hlow : ∀ value ∈ low, isPlainName value = true)
      (hhigh : ∀ value ∈ high, isPlainName value = true) :
      IsRequirement (SearchQuery.interval opening (low.elim ['*'] String.toList)
        (high.elim ['*'] String.toList) closing)

/-- A clause that is no composition. -/
inductive IsLeafClause : List Char → Prop where
  | test {field : String} {requirement : List Char} (hfield : isPlainName field = true)
      (h : IsRequirement requirement) : IsLeafClause (onField field requirement)
  | documents {values : List String} (hne : values ≠ [])
      (h : ∀ value ∈ values, isPlainName value = true) :
      IsLeafClause (onField "_id"
        (parenthesized (spaceSeparated (values.map fun value => doubleQuoted value.toList))))

/-! ### No operand is missing -/

theorem gapless_of_isPlainChar {text : List Char} (hne : text ≠ [])
    (h : ∀ c ∈ text, isPlainChar c = true) : Gapless text :=
  gapless_of_forall hne fun c hc => ⟨ne_of_isPlainChar (h c hc) (by decide),
    ne_of_isPlainChar (h c hc) (by decide), ne_of_isPlainChar (h c hc) (by decide)⟩

theorem gapless_of_isPlainName {name : String} (h : isPlainName name = true) :
    Gapless name.toList :=
  gapless_of_isPlainChar (isPlainName_iff.mp h).1 (isPlainName_iff.mp h).2

theorem gapless_doubleQuoted {text : List Char} (h : Gapless text) :
    Gapless (doubleQuoted text) :=
  (show Gapless ['"'] by decide).append (h.append (show Gapless ['"'] by decide))

theorem gapless_intervalEnd {value : Option String}
    (h : ∀ name ∈ value, isPlainName name = true) : Gapless (value.elim ['*'] String.toList) := by
  cases value with
  | none => decide
  | some name => exact gapless_of_isPlainName (h name rfl)

theorem IsRequirement.gapless {requirement : List Char} (h : IsRequirement requirement) :
    Gapless requirement := by
  cases h with
  | value h => exact gapless_of_isPlainName h
  | anyOf hne h =>
    rw [gapless_parenthesized, gapless_alternatives, List.forall_mem_map]
    exact ⟨by simpa using hne, fun value hmem => gapless_of_isPlainName (h value hmem)⟩
  | phrase h => exact gapless_doubleQuoted (gapless_of_isPlainName h)
  | beginning h => exact (gapless_of_isPlainName h).append (by decide)
  | near h edits =>
    have hnumber : Gapless (Number.natText edits) :=
      gapless_of_isPlainChar (Number.natText_ne_nil edits) fun c hc =>
        Number.isPlainChar_of_mem_natText hc
    exact (gapless_of_isPlainName h).append ((show Gapless ['~'] by decide).append hnumber)
  | pattern h =>
    exact (show Gapless ['/'] by decide).append ((gapless_of_isPlainName h).append (by decide))
  | @interval opening closing low high hopening hclosing hlow hhigh =>
    have hopens : Gapless [opening] := by rcases hopening with rfl | rfl <;> decide
    have hcloses : Gapless [closing] := by rcases hclosing with rfl | rfl <;> decide
    have hends := gapless_append_space.mpr ⟨gapless_intervalEnd hlow,
      gapless_append_space.mpr ⟨show Gapless "TO".toList by decide, gapless_intervalEnd hhigh⟩⟩
    simpa [SearchQuery.interval] using hopens.append (hends.append hcloses)

theorem IsLeafClause.gapless {text : List Char} (h : IsLeafClause text) : Gapless text := by
  have hcolon : Gapless [':'] := by decide
  cases h with
  | test hfield h => exact (gapless_of_isPlainName hfield).append (hcolon.append h.gapless)
  | documents hne h =>
    have hvalues := gapless_parenthesized.mpr (gapless_spaceSeparated.mpr
      ⟨by simpa using hne, List.forall_mem_map.mpr fun value hmem =>
        gapless_doubleQuoted (gapless_of_isPlainName (h value hmem))⟩)
    exact (show Gapless "_id".toList by decide).append (hcolon.append hvalues)

/-! ### Nothing to trim -/

theorem isTrimmed_of_isPlainChar {text : List Char} (h : ∀ c ∈ text, isPlainChar c = true) :
    IsTrimmed text where
  head c hc := (isPlainChar_iff.mp (h c (List.mem_of_mem_head? hc))).1
  last c hc := (isPlainChar_iff.mp (h c (List.mem_of_mem_getLast? hc))).1

theorem IsRequirement.trimEnd_eq {requirement : List Char} (h : IsRequirement requirement) :
    trimEnd requirement = requirement := by
  cases h with
  | value h => exact (isTrimmed_of_isPlainChar (isPlainName_iff.mp h).2).trimEnd_eq
  | anyOf | phrase | pattern => exact (isTrimmed_between (by decide) (by decide) _).trimEnd_eq
  | beginning => exact trimEnd_concat_of_not_isBlank (by decide) _
  | near h edits =>
    have hnumber : trimEnd (Number.natText edits) = Number.natText edits :=
      (isTrimmed_of_isPlainChar fun c hc => Number.isPlainChar_of_mem_natText hc).trimEnd_eq
    rw [trimEnd_append_cons (by decide), hnumber]
  | @interval opening closing low high hopening hclosing =>
    have hopens : isBlank opening = false := by rcases hopening with rfl | rfl <;> decide
    have hcloses : isBlank closing = false := by rcases hclosing with rfl | rfl <;> decide
    exact (isTrimmed_between hopens hcloses _).trimEnd_eq

theorem trim_onField_of_isPlainName {field : String} {requirement : List Char}
    (hfield : isPlainName field = true) (hend : trimEnd requirement = requirement) :
    trim (onField field requirement) = onField field requirement := by
  have hname : trimStart (fieldName field) = fieldName field :=
    trimStart_eq_self (isTrimmed_of_isPlainChar (isPlainName_iff.mp hfield).2).head
  rw [trim_onField, hname, hend]
  rfl

theorem isLeafClause_trim_onField {field : String} {requirement : List Char}
    (hfield : isPlainName field = true) (h : IsRequirement requirement) :
    IsLeafClause (trim (onField field requirement)) := by
  rw [trim_onField_of_isPlainName hfield h.trimEnd_eq]
  exact .test hfield h

/-! ## The grammar -/

/-- The nonterminals: queries, clauses behind a sign, items of a composition other than its last
group, and that group. -/
inductive Nonterminal where
  | query
  | clause
  | item
  | group
deriving DecidableEq, Repr

/-- The texts of a nonterminal. -/
inductive Derives : Nonterminal → List Char → Prop where
  | leaf {text : List Char} (h : IsLeafClause text) : Derives .query text
  | composition {items : List (List Char)} {last : Option (List Char)}
      (hne : items ++ last.toList ≠ []) (hitems : ∀ item ∈ items, Derives .item item)
      (hlast : ∀ group ∈ last, Derives .group group) :
      Derives .query (spaceSeparated (items ++ last.toList))
  | bare {text : List Char} (h : IsLeafClause text) : Derives .clause text
  | nested {text : List Char} (h : Derives .query text) : Derives .clause (parenthesized text)
  | required {text : List Char} (h : Derives .clause text) : Derives .item ('+' :: text)
  | prohibited {text : List Char} (h : Derives .clause text) : Derives .item ('-' :: text)
  | optionalGroup {texts : List (List Char)} (hne : texts ≠ [])
      (h : ∀ text ∈ texts, Derives .query text) :
      Derives .group (parenthesized (alternatives texts))
  | requiredGroup {texts : List (List Char)} (hne : texts ≠ [])
      (h : ∀ text ∈ texts, Derives .query text) :
      Derives .group ('+' :: parenthesized (alternatives texts))

/-- No text of the grammar lacks an operand. -/
theorem Derives.gapless {nonterminal : Nonterminal} {text : List Char}
    (h : Derives nonterminal text) : Gapless text := by
  have hplus : Gapless ['+'] := by decide
  have hminus : Gapless ['-'] := by decide
  induction h with
  | leaf h => exact h.gapless
  | composition hne _ _ ihitems ihlast =>
    rw [gapless_spaceSeparated, List.forall_mem_append]
    exact ⟨hne, ihitems, fun group hmem => ihlast group (Option.mem_toList.mp hmem)⟩
  | bare h => exact h.gapless
  | nested _ ih => exact gapless_parenthesized.mpr ih
  | required _ ih => exact hplus.append ih
  | prohibited _ ih => exact hminus.append ih
  | optionalGroup hne _ ih => exact gapless_parenthesized.mpr (gapless_alternatives.mpr ⟨hne, ih⟩)
  | requiredGroup hne _ ih =>
    exact hplus.append (gapless_parenthesized.mpr (gapless_alternatives.mpr ⟨hne, ih⟩))

/-! ## Conditions on queries -/

namespace Query

mutual

/-- Whether `p` holds of a query and of all the queries that it is made of. -/
def everywhere (p : Query → Bool) : Query → Bool
  | bool must filter mustNot should minimum =>
      p (bool must filter mustNot should minimum) && everywhereIn p must && everywhereIn p filter &&
        everywhereIn p mustNot && everywhereIn p should
  | query => p query

/-- Whether `p` holds of some queries and of all that they are made of. -/
def everywhereIn (p : Query → Bool) : List Query → Bool
  | [] => true
  | query :: rest => query.everywhere p && everywhereIn p rest

end

theorem everywhereIn_iff {p : Query → Bool} {queries : List Query} :
    everywhereIn p queries = true ↔ ∀ query ∈ queries, query.everywhere p = true := by
  induction queries with
  | nil => simp [everywhereIn]
  | cons query rest ih => rw [everywhereIn, Bool.and_eq_true, ih, List.forall_mem_cons]

theorem everywhere_of_kind_ne {p : Query → Bool} {query : Query} (hkind : query.kind ≠ .bool) :
    query.everywhere p = p query := by
  cases query with
  | bool => exact absurd rfl hkind
  | _ => rfl

theorem everywhere_build {p : Query → Bool} {clauses : BoolClauses} :
    clauses.build.everywhere p = true ↔ p clauses.build = true ∧
      ∀ occurrence, ∀ query ∈ clauses.get occurrence, query.everywhere p = true := by
  simp only [BoolClauses.build, everywhere, Bool.and_eq_true, everywhereIn_iff, and_assoc,
    Occurrence.forall_iff, BoolClauses.get]

/-- Whether a clause has a plain name for its field and plain names for its values. -/
def isPlainClause : Query → Bool
  | term field value | matching field value | phrase field value | beginning field value
  | wildcard field value | fuzzy field value _ | regexp field value =>
      isPlainName field && isPlainName value
  | terms field values => isPlainName field && values.all isPlainName
  | existing field => isPlainName field
  | ids values => values.all isPlainName
  | range bounds =>
      isPlainName bounds.field &&
        Bound.all.all fun bound => (bounds.get? bound).all isPlainName
  | bool .. => true

/-- Whether all fields and values of a query are plain names. -/
def isPlain (query : Query) : Bool :=
  query.everywhere isPlainClause

/-- Whether every composition in a query has a clause. -/
def isFilled (query : Query) : Bool :=
  query.everywhere fun part => part.kind ≠ .bool || !part.clauses.isEmpty

theorem isFilled_of_kind_ne {query : Query} (hkind : query.kind ≠ .bool) :
    query.isFilled = true := by
  rw [isFilled, everywhere_of_kind_ne hkind, decide_eq_true hkind, Bool.true_or]

theorem isFilled_build {clauses : BoolClauses} :
    clauses.build.isFilled = true ↔ clauses.build.clauses.isEmpty = false ∧
      ∀ occurrence, ∀ query ∈ clauses.get occurrence, query.isFilled = true := by
  rw [isFilled, everywhere_build]
  simp [BoolClauses.build, kind, isFilled]

/-! ## Query strings of the grammar -/

theorem map_escape_of_isPlainName {values : List String}
    (h : ∀ value ∈ values, isPlainName value = true) :
    (values.map fun value => escape value.toList) = values.map String.toList :=
  List.map_congr_left fun value hmem => escape_of_isPlainChar (isPlainName_iff.mp (h value hmem)).2

/-- A complete clause of plain names is written as a clause of the grammar. -/
theorem isLeafClause_text {query : Query} (hkind : query.kind ≠ .bool)
    (hplain : query.isPlainClause = true) (hcomplete : query.isComplete = true)
    (fuzziness : UInt32) : IsLeafClause (query.text fuzziness) := by
  rw [text]
  cases query with
  | bool => exact absurd rfl hkind
  | term field value =>
    obtain ⟨hfield, hvalue⟩ := (Bool.and_eq_true ..).mp hplain
    rw [render, escape_of_isPlainChar (isPlainName_iff.mp hvalue).2]
    exact isLeafClause_trim_onField hfield (.value hvalue)
  | terms field values =>
    obtain ⟨hfield, hvalues⟩ := (Bool.and_eq_true ..).mp hplain
    obtain ⟨_, hne⟩ := (Bool.and_eq_true ..).mp hcomplete
    rw [List.all_eq_true] at hvalues
    rw [render, map_escape_of_isPlainName hvalues]
    exact isLeafClause_trim_onField hfield (.anyOf (of_decide_eq_true hne) hvalues)
  | matching field value =>
    obtain ⟨hfield, hvalue⟩ := (Bool.and_eq_true ..).mp hplain
    have hone : alternatives ([value].map String.toList) = value.toList := by simp [alternatives]
    rw [render, ← hone]
    exact isLeafClause_trim_onField hfield
      (.anyOf (List.cons_ne_nil _ _) (by simpa using hvalue))
  | phrase field value =>
    obtain ⟨hfield, hvalue⟩ := (Bool.and_eq_true ..).mp hplain
    exact isLeafClause_trim_onField hfield (.phrase hvalue)
  | beginning field value =>
    obtain ⟨hfield, hvalue⟩ := (Bool.and_eq_true ..).mp hplain
    rw [render, escape_of_isPlainChar (isPlainName_iff.mp hvalue).2]
    exact isLeafClause_trim_onField hfield (.beginning hvalue)
  | wildcard field value =>
    obtain ⟨hfield, hvalue⟩ := (Bool.and_eq_true ..).mp hplain
    exact isLeafClause_trim_onField hfield (.value hvalue)
  | fuzzy field value edits =>
    obtain ⟨hfield, hvalue⟩ := (Bool.and_eq_true ..).mp hplain
    rw [render, escape_of_isPlainChar (isPlainName_iff.mp hvalue).2]
    exact isLeafClause_trim_onField hfield (.near hvalue _)
  | regexp field value =>
    obtain ⟨hfield, hvalue⟩ := (Bool.and_eq_true ..).mp hplain
    exact isLeafClause_trim_onField hfield (.pattern hvalue)
  | existing field => exact isLeafClause_trim_onField (by decide) (.value hplain)
  | ids values =>
    rw [render, trim_onField_of_isPlainName (by decide) (isTrimmed_parenthesized _).trimEnd_eq]
    exact .documents (of_decide_eq_true hcomplete) (List.all_eq_true.mp hplain)
  | range bounds =>
    obtain ⟨hfield, hbounds⟩ := (Bool.and_eq_true ..).mp hplain
    have hbound (bound : Bound) : ∀ value ∈ bounds.get? bound, isPlainName value = true := by
      intro value hmem
      have hall := List.all_eq_true.mp hbounds bound (Bound.mem_all bound)
      rwa [Option.mem_def.mp hmem] at hall
    have hend (preferred other : Bound) :
        ∀ value ∈ (bounds.get? preferred).or (bounds.get? other), isPlainName value = true := by
      intro value hmem
      rcases Option.or_eq_some_iff.mp hmem with hmem | ⟨_, hmem⟩
      · exact hbound preferred value hmem
      · exact hbound other value hmem
    refine isLeafClause_trim_onField hfield
      (.interval ?_ ?_ (hend .gte .gt) (hend .lte .lt))
    · split <;> decide
    · split <;> decide

/-! ### Compositions -/

/-- There is one group of alternatives at most. -/
theorem toList_head?_optionalGroup (signed optional : List (List Char)) :
    (optionalGroup signed optional).head?.toList = optionalGroup signed optional := by
  unfold optionalGroup
  split
  · rfl
  · split <;> rfl

/-- A composition has items exactly if it has clauses. -/
theorem itemTexts_ne_nil_iff {fuzziness : UInt32} {clauses : BoolClauses} :
    itemTexts fuzziness clauses.must clauses.filter clauses.mustNot clauses.should ≠ [] ↔
      clauses.build.clauses.isEmpty = false := by
  simp [BoolClauses.build, Query.clauses, itemTexts, signedTexts, optionalGroup_eq_nil_iff]

theorem derives_clauseText {query : Query} {fuzziness : UInt32}
    (hleaf : query.kind ≠ .bool → IsLeafClause (query.text fuzziness))
    (h : Derives .query (query.text fuzziness)) : Derives .clause (query.clauseText fuzziness) := by
  unfold clauseText
  split
  · exact .nested h
  · rename_i hkind
    exact .bare (hleaf hkind)

theorem derives_of_mem_optionalGroup {signed optional : List (List Char)} {group : List Char}
    (h : ∀ text ∈ optional, Derives .query text) (hmem : group ∈ optionalGroup signed optional) :
    Derives .group group := by
  have hne : optional ≠ [] := by
    rintro rfl
    exact nomatch hmem
  rcases mem_optionalGroup hmem with rfl | rfl
  · exact .optionalGroup hne h
  · exact .requiredGroup hne h

/-- A composition of queries of the grammar is one of the grammar if it has a clause. -/
theorem derives_text_build {clauses : BoolClauses} {fuzziness : UInt32}
    (hsome : clauses.build.clauses.isEmpty = false)
    (hclause : ∀ occurrence, ∀ query ∈ clauses.get occurrence,
      Derives .clause (query.clauseText fuzziness))
    (hquery : ∀ query ∈ clauses.should, Derives .query (query.text fuzziness)) :
    Derives .query (clauses.build.text fuzziness) := by
  have hne := (@itemTexts_ne_nil_iff fuzziness clauses).mpr hsome
  rw [BoolClauses.build, text_bool]
  -- The last item is the group, if there is one; the others have signs.
  rw [itemTexts, ← toList_head?_optionalGroup] at hne ⊢
  refine .composition hne (fun item hmem => ?_) fun group hmem => ?_
  · simp only [signedTexts, List.mem_append, List.mem_map] at hmem
    rcases hmem with (⟨query, hmem, rfl⟩ | ⟨query, hmem, rfl⟩) | ⟨query, hmem, rfl⟩
    · exact .required (hclause .must query hmem)
    · exact .required (hclause .filter query hmem)
    · exact .prohibited (hclause .mustNot query hmem)
  · exact derives_of_mem_optionalGroup (List.forall_mem_map.mpr hquery)
      (List.mem_of_mem_head? hmem)

/-- A complete query of plain names, each of whose compositions has a clause, is written as a query
of the grammar. -/
theorem derives_text {query : Query} (hplain : query.isPlain = true)
    (hcomplete : query.isComplete = true) (hfilled : query.isFilled = true) (fuzziness : UInt32) :
    Derives .query (query.text fuzziness) := by
  have hleaf {query : Query} (hkind : query.kind ≠ .bool) (hplain : query.isPlain = true)
      (hcomplete : query.isComplete = true) : IsLeafClause (query.text fuzziness) := by
    rw [isPlain, everywhere_of_kind_ne hkind] at hplain
    exact isLeafClause_text hkind hplain hcomplete fuzziness
  induction query using Query.induction_build with
  | leaf query hkind => exact .leaf (hleaf hkind hplain hcomplete)
  | build clauses ih =>
    obtain ⟨_, hplain⟩ := everywhere_build.mp hplain
    obtain ⟨hsome, hfilled⟩ := isFilled_build.mp hfilled
    rw [isComplete_build] at hcomplete
    have hquery : ∀ occurrence, ∀ query ∈ clauses.get occurrence,
        Derives .query (query.text fuzziness) := fun occurrence query hmem =>
      ih occurrence query hmem (hplain occurrence query hmem) (hcomplete occurrence query hmem)
        (hfilled occurrence query hmem)
    refine derives_text_build hsome (fun occurrence query hmem => ?_) (hquery .should)
    exact derives_clauseText
      (fun hkind => hleaf hkind (hplain occurrence query hmem) (hcomplete occurrence query hmem))
      (hquery occurrence query hmem)

/-! ### Compositions without clauses -/

/-- The text of a nested composition stands between parentheses. -/
theorem gapless_of_sign_parenthesized {sign : Char} {text : List Char}
    (h : Gapless (sign :: parenthesized text)) : Gapless text := by
  have hgroup : Gapless (parenthesized text) := List.IsChain.cons_cons (by decide) h.tail.tail
  exact gapless_parenthesized.mp hgroup

theorem gapless_text_of_sign {sign : Char} {query : Query} {fuzziness : UInt32}
    (hkind : query.kind = .bool) (h : Gapless (sign :: query.clauseText fuzziness)) :
    Gapless (query.text fuzziness) := by
  rw [clauseText, if_pos hkind] at h
  exact gapless_of_sign_parenthesized h

theorem gapless_of_mem_optionalGroup {signed optional : List (List Char)} {text : List Char}
    (h : ∀ group ∈ optionalGroup signed optional, Gapless group) (hmem : text ∈ optional) :
    Gapless text := by
  have halternatives : Gapless (alternatives optional) := by
    rw [optionalGroup, if_neg (List.ne_nil_of_mem hmem)] at h
    split at h
    · exact gapless_parenthesized.mp (h _ List.mem_cons_self)
    · exact gapless_of_sign_parenthesized (h _ List.mem_cons_self)
  exact (gapless_alternatives.mp halternatives).2 text hmem

/-- Where no operand is missing, every composition has a clause. -/
theorem isFilled_of_gapless {query : Query} {fuzziness : UInt32}
    (h : Gapless (query.text fuzziness)) : query.isFilled = true := by
  induction query using Query.induction_build with
  | leaf query hkind => exact isFilled_of_kind_ne hkind
  | build clauses ih =>
    rw [BoolClauses.build, text_bool, gapless_spaceSeparated, itemTexts_ne_nil_iff] at h
    obtain ⟨hsome, hitems⟩ := h
    simp only [itemTexts, signedTexts, List.forall_mem_append, List.forall_mem_map] at hitems
    obtain ⟨⟨⟨hmust, hfilter⟩, hmustNot⟩, hgroup⟩ := hitems
    refine isFilled_build.mpr ⟨hsome, fun occurrence query hmem => ?_⟩
    -- Only the texts of nested compositions are taken out of the items; no other can be empty.
    by_cases hkind : query.kind = .bool
    · refine ih occurrence query hmem ?_
      cases occurrence with
      | must => exact gapless_text_of_sign hkind (hmust query hmem)
      | filter => exact gapless_text_of_sign hkind (hfilter query hmem)
      | mustNot => exact gapless_text_of_sign hkind (hmustNot query hmem)
      | should => exact gapless_of_mem_optionalGroup hgroup (List.mem_map_of_mem hmem)
    · exact isFilled_of_kind_ne hkind

end Query

/-! ## Accepted documents -/

namespace Document

open Json

/-- The query string of an accepted document of plain names is one of the grammar exactly if every
composition has a clause.  It then has no empty group, and an operand on either side of every
`OR`. -/
theorem derives_emitWith_iff_isFilled {config : Config} {text : String} {query : Query}
    (hok : parse config text = .ok query) (hplain : query.isPlain = true) (fuzziness : UInt32) :
    (Derives .query (query.emitWith fuzziness).toList ↔ query.isFilled = true) ∧
    (query.isFilled = true →
      ¬"()".toList <:+: (query.emitWith fuzziness).toList ∧
      ∀ before after, (query.emitWith fuzziness).toList = before ++ " OR ".toList ++ after →
        (∃ c ∈ before.getLast?, c ≠ '(' ∧ c ≠ ' ') ∧ ∃ c ∈ after.head?, c ≠ ')' ∧ c ≠ ' ') := by
  rw [toList_emitWith]
  have hderives (hfilled : query.isFilled = true) : Derives .query (query.text fuzziness) :=
    derives_text hplain (isComplete_of_parse hok) hfilled fuzziness
  refine ⟨⟨fun h => isFilled_of_gapless h.gapless, hderives⟩, fun hfilled => ?_⟩
  have hgapless := (hderives hfilled).gapless
  refine ⟨hgapless.not_isInfix, fun before after hsplit => ?_⟩
  rw [hsplit, gapless_append_or] at hgapless
  exact ⟨hgapless.1.exists_mem_getLast?, hgapless.2.exists_mem_head?⟩

/-- A composition of a term and another query. -/
def withTerm (query : Query) : Query :=
  .bool [.term "a" "x", query] [] [] [] none

/-- The document of a composition of a term and the query of another document. -/
def withTermDocument (document : Value) : Value :=
  .tagged "bool" (.tagged "must"
    (.array [.tagged "term" (.tagged "a" (.string "x")), document]))

theorem isWritten_withTermDocument {document : Value} (h : document.IsWritten) :
    (withTermDocument document).IsWritten := by
  have hterm := ((Value.isWritten_string "x").tagged "a").tagged "term"
  refine .tagged (.tagged (.array ?_) "must") "bool"
  simp only [List.forall_mem_cons]
  exact ⟨hterm, h, nofun⟩

/-- A nested composition with one alternative. -/
def oneAlternative : Value :=
  .tagged "bool" (.tagged "should" (.tagged "exists" (.tagged "field" (.string "b"))))

theorem derives_emitWith_withTerm :
    parse {} (withTermDocument oneAlternative).compact =
      .ok (withTerm (.bool [] [] [] [.existing "b"] none)) ∧
    (withTerm (.bool [] [] [] [.existing "b"] none)).isPlain = true ∧
    Derives .query ((withTerm (.bool [] [] [] [.existing "b"] none)).emitWith 2).toList := by
  have hwritten : oneAlternative.IsWritten :=
    ((((Value.isWritten_string "b").tagged "field").tagged "exists").tagged "should").tagged "bool"
  have hok : parse {} (withTermDocument oneAlternative).compact =
      .ok (withTerm (.bool [] [] [] [.existing "b"] none)) := by
    rw [parse_compact ((isWritten_withTermDocument hwritten).of_nesting_le (by decide))
      (by decide +kernel)]
    rfl
  have hplain : (withTerm (.bool [] [] [] [.existing "b"] none)).isPlain = true := by decide
  exact ⟨hok, hplain, (derives_emitWith_iff_isFilled hok hplain 2).1.mpr (by decide)⟩

/-- A nested composition without clauses is accepted, and leaves an empty group. -/
theorem not_derives_emitWith_withTerm :
    parse {} (withTermDocument (.tagged "bool" (.object []))).compact =
      .ok (withTerm (.bool [] [] [] [] none)) ∧
    (withTerm (.bool [] [] [] [] none)).isPlain = true ∧
    (withTerm (.bool [] [] [] [] none)).emit = "+a:x +()" ∧
    ¬Derives .query (withTerm (.bool [] [] [] [] none)).emit.toList := by
  have hempty : (Value.object []).IsWritten := .object List.nodup_nil nofun
  have hemit : (withTerm (.bool [] [] [] [] none)).emit = "+a:x +()" := by decide
  refine ⟨?_, by decide, hemit, ?_⟩
  · rw [parse_compact ((isWritten_withTermDocument (hempty.tagged "bool")).of_nesting_le
      (by decide)) (by decide +kernel)]
    rfl
  · rw [hemit]
    exact fun h => absurd h.gapless (by decide)

end Document

end SearchQuery
