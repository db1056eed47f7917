import SearchQuery.Proofs.ClauseReading

/-!
# Matching

Give every single clause an outcome, by its text.  A query then matches or not, as its composition
says (`Query.holds`), and so does a query string, as the query syntax reads it (`matchesText`): the
words of a text or of a group are items with signs, and the word `OR` is a mere separator.

The alternatives of a group have no parentheses of their own, so a reader takes the items of all
of them together.  `readItems_text` says what it reads of a query, and `matchTogether_items` when
this keeps the meaning: a composition among alternatives must be a single item itself
(`Query.keepsAlternatives`).  `matchesText_emitWith` puts the two together.
-/

namespace SearchQuery

open Text

/-! ## Items with outcomes -/

/-- Whether an item with this sign has no objection. -/
def Sign.admits : Sign → Bool → Bool
  | required, matched => matched
  | prohibited, matched => !matched
  | optional, _ => true

/-- Whether items with these outcomes match together: each required one does, no prohibited one
does, and among optional ones without required ones there is one that does. -/
def matchTogether (items : List (Sign × Bool)) : Bool :=
  (items.all fun item => item.1.admits item.2) &&
    (items.any (·.1 = .required) || items.all (·.1 ≠ .optional) ||
      items.any fun item => item.1 = .optional && item.2)

theorem matchTogether_of_ne_optional {items : List (Sign × Bool)}
    (h : ∀ item ∈ items, item.1 ≠ .optional) :
    matchTogether items = items.all fun item => item.1.admits item.2 := by
  have hnone : (items.all (·.1 ≠ .optional)) = true := by simpa using h
  simp only [matchTogether, hnone, Bool.or_true, Bool.true_or, Bool.and_true]

theorem matchTogether_concat_required (items : List (Sign × Bool)) (matched : Bool) :
    matchTogether (items ++ [(.required, matched)]) =
      ((items.all fun item => item.1.admits item.2) && matched) := by
  simp [matchTogether, Sign.admits]

theorem matchTogether_optional (outcomes : List Bool) :
    matchTogether (outcomes.map fun matched => (.optional, matched)) =
      (outcomes.isEmpty || outcomes.any id) := by
  cases outcomes with
  | nil => rfl
  | cons first rest =>
    have hadmits : (rest.all fun _ => true) = true := by simp
    have hrequired : (rest.any fun _ => false) = false := by simp
    simp only [matchTogether, Sign.admits, List.map_cons, List.all_cons, List.any_cons,
      List.all_map, List.any_map, Function.comp_def]
    simp only [hadmits, hrequired, decide_true, decide_false, Bool.true_and, Bool.false_or,
      ne_eq, reduceCtorEq, not_true_eq_false, Bool.false_and]
    rfl

@[simp] theorem matchTogether_singleton_optional (matched : Bool) :
    matchTogether [(.optional, matched)] = matched := by
  simpa using matchTogether_optional [matched]

/-! ## Matching a query -/

namespace Query

mutual

/-- Whether a query matches, if `truth` says which single clauses do. -/
def holds (truth : List Char → Bool) (fuzziness : UInt32) (query : Query) : Bool :=
  match query with
  | bool must filter mustNot should _ =>
      allHold truth fuzziness must && allHold truth fuzziness filter &&
        !anyHolds truth fuzziness mustNot && (should.isEmpty || anyHolds truth fuzziness should)
  | query => truth (query.emitWith fuzziness).toList

/-- Whether every one of some queries matches. -/
def allHold (truth : List Char → Bool) (fuzziness : UInt32) : List Query → Bool
  | [] => true
  | query :: rest => query.holds truth fuzziness && allHold truth fuzziness rest

/-- Whether one of some queries matches. -/
def anyHolds (truth : List Char → Bool) (fuzziness : UInt32) : List Query → Bool
  | [] => false
  | query :: rest => query.holds truth fuzziness || anyHolds truth fuzziness rest

end

end Query

/-! ## Matching a query string -/

/-- The words of a text that are items: neither separators nor empty. -/
def itemWords (text : List Char) : List (List Char) :=
  (words text).filter fun word => word ≠ [] && word ≠ orWord

section Items

variable (truth inner : List Char → Bool)

/-- The outcome of an item, its sign taken off; `inner` says whether the inside of a group
matches. -/
def bodyOutcome : List Char → Bool
  | '(' :: inside => inner inside.dropLast
  | text => truth text

/-- The sign and the outcome of an item. -/
def itemOutcome : List Char → Sign × Bool
  | '+' :: body => (.required, bodyOutcome truth inner body)
  | '-' :: body => (.prohibited, bodyOutcome truth inner body)
  | body => (.optional, bodyOutcome truth inner body)

end Items

/-- The items of a text with their outcomes, with at most as many levels of groups as `levels`
says. -/
def readItems (truth : List Char → Bool) : (levels : Nat) → List Char → List (Sign × Bool)
  | 0, _ => []
  | levels + 1, text =>
      (itemWords text).map (itemOutcome truth fun inside =>
        matchTogether (readItems truth levels inside))

/-- Whether a query string matches, if `truth` says which single clauses do.  Every group takes a
character at least. -/
def matchesText (truth : List Char → Bool) (text : String) : Bool :=
  matchTogether (readItems truth (text.toList.length + 1) text.toList)

/-! ## The items of a query -/

namespace Query

variable {truth : List Char → Bool} {fuzziness : UInt32}

mutual

/-- The items that the text of a query is made of.  In the group of the optional clauses stand the
items of all of them. -/
def items (truth : List Char → Bool) (fuzziness : UInt32) (query : Query) :
    List (Sign × Bool) :=
  match query with
  | bool must filter mustNot should _ =>
      let signed := clauseItems truth fuzziness .required must
        ++ clauseItems truth fuzziness .required filter
        ++ clauseItems truth fuzziness .prohibited mustNot
      let sign := if must = [] ∧ filter = [] ∧ mustNot = [] then Sign.optional else Sign.required
      signed ++
        if should = [] then [] else [(sign, matchTogether (allItems truth fuzziness should))]
  | query => [(.optional, truth (query.emitWith fuzziness).toList)]

/-- Clauses as items with a sign. -/
def clauseItems (truth : List Char → Bool) (fuzziness : UInt32) (sign : Sign) :
    List Query → List (Sign × Bool)
  | [] => []
  | query :: rest =>
      (sign, matchTogether (query.items truth fuzziness)) ::
        clauseItems truth fuzziness sign rest

/-- The items of some queries. -/
def allItems (truth : List Char → Bool) (fuzziness : UInt32) : List Query → List (Sign × Bool)
  | [] => []
  | query :: rest => query.items truth fuzziness ++ allItems truth fuzziness rest

end

theorem clauseItems_eq_map (sign : Sign) (queries : List Query) :
    clauseItems truth fuzziness sign queries =
      queries.map fun query => (sign, matchTogether (query.items truth fuzziness)) := by
  induction queries with
  | nil => rfl
  | cons query rest ih => rw [clauseItems, ih, List.map_cons]

theorem allItems_eq_flatMap (queries : List Query) :
    allItems truth fuzziness queries = queries.flatMap (items truth fuzziness) := by
  induction queries with
  | nil => rfl
  | cons query rest ih => rw [allItems, ih, List.flatMap_cons]

theorem items_of_kind_ne {query : Query} (hleaf : query.kind ≠ .bool) :
    query.items truth fuzziness = [(.optional, truth (query.text fuzziness))] := by
  cases query with
  | bool => exact absurd rfl hleaf
  | _ =>
    rw [items, toList_emitWith]
    exact nofun

theorem holds_of_kind_ne {query : Query} (hleaf : query.kind ≠ .bool) :
    query.holds truth fuzziness = truth (query.text fuzziness) := by
  cases query with
  | bool => exact absurd rfl hleaf
  | _ =>
    rw [holds, toList_emitWith]
    exact nofun

theorem allHold_eq_all (queries : List Query) :
    allHold truth fuzziness queries = queries.all (holds truth fuzziness) := by
  induction queries with
  | nil => rfl
  | cons query rest ih => rw [allHold, ih, List.all_cons]

theorem anyHolds_eq_any (queries : List Query) :
    anyHolds truth fuzziness queries = queries.any (holds truth fuzziness) := by
  induction queries with
  | nil => rfl
  | cons query rest ih => rw [anyHolds, ih, List.any_cons]

/-! ## Reading the items back -/

section Reading

variable {inner : List Char → Bool}

theorem itemOutcome_of_not_startsItem {text : List Char} (h : startsItem text = false) :
    itemOutcome truth inner text = (.optional, truth text) ∧
      bodyOutcome truth inner text = truth text := by
  have hbody : bodyOutcome truth inner text = truth text := by
    unfold bodyOutcome
    split
    · exact nomatch h
    · rfl
  refine ⟨?_, hbody⟩
  unfold itemOutcome
  split
  · exact nomatch h
  · exact nomatch h
  · rw [hbody]

theorem bodyOutcome_parenthesized (text : List Char) :
    bodyOutcome truth inner (parenthesized text) = inner text := by
  rw [parenthesized, bodyOutcome, List.dropLast_concat]

theorem itemWords_of_startsItem {texts : List (List Char)} {text : List Char}
    (hwords : words text = texts) (h : ∀ item ∈ texts, startsItem item = true) :
    itemWords text = texts := by
  rw [itemWords, hwords, List.filter_eq_self]
  intro item hitem
  have hstarts := h item hitem
  have hempty : item ≠ [] := by
    rintro rfl
    exact nomatch hstarts
  have hor : item ≠ orWord := by
    rintro rfl
    exact absurd hstarts (by decide)
  simp [hempty, hor]

/-- The items of alternatives are the items of each of them, one after another. -/
theorem itemWords_alternatives {texts : List (List Char)} (h : ∀ text ∈ texts, Closed text)
    (hne : texts ≠ []) : itemWords (alternatives texts) = texts.flatMap itemWords := by
  rw [itemWords, words_alternatives h hne]
  clear h hne
  induction texts with
  | nil => rfl
  | cons text rest ih =>
    cases rest with
    | nil => simp [itemWords]
    | cons next rest =>
      rw [List.map_cons] at ih
      rw [List.map_cons, List.map_cons, List.intercalate_cons_cons, List.filter_append,
        List.filter_append, ih]
      simp [itemWords]

theorem readItems_alternatives {texts : List (List Char)} (h : ∀ text ∈ texts, Closed text)
    (hne : texts ≠ []) (levels : Nat) :
    readItems truth levels (alternatives texts) = texts.flatMap (readItems truth levels) := by
  cases levels with
  | zero => simp [readItems]
  | succ levels =>
    simp only [readItems, itemWords_alternatives h hne, List.map_flatMap]

/-- A clause behind a sign has the outcome of its items, if its text is read as its items. -/
theorem bodyOutcome_clauseText {query : Query} (hlegible : query.isLegible = true) {levels : Nat}
    (hread : readItems truth levels (query.text fuzziness) = query.items truth fuzziness) :
    bodyOutcome truth (fun inside => matchTogether (readItems truth levels inside))
        (query.clauseText fuzziness) = matchTogether (query.items truth fuzziness) := by
  unfold clauseText
  split
  · rw [bodyOutcome_parenthesized, hread]
  · rename_i hleaf
    have hfield := isFieldText_text hleaf hlegible fuzziness
    rw [(itemOutcome_of_not_startsItem hfield.startsItem_eq).2, items_of_kind_ne hleaf,
      matchTogether_singleton_optional]

/-- Clauses behind a sign are read as their items with the sign. -/
theorem map_itemOutcome_clauseTexts {queries : List Query} {levels : Nat}
    (hlegible : ∀ query ∈ queries, query.isLegible = true)
    (hread : ∀ query ∈ queries,
      readItems truth levels (query.text fuzziness) = query.items truth fuzziness) (sign : Sign) :
    (queries.map fun query => (sign,
        bodyOutcome truth (fun inside => matchTogether (readItems truth levels inside))
          (query.clauseText fuzziness))) = clauseItems truth fuzziness sign queries := by
  rw [clauseItems_eq_map]
  refine List.map_congr_left fun query hmem => ?_
  rw [bodyOutcome_clauseText (hlegible query hmem) (hread query hmem)]

/-- The inside of a group is read as the items of its alternatives. -/
theorem readItems_alternatives_texts {queries : List Query} {levels : Nat} (hne : queries ≠ [])
    (hlegible : ∀ query ∈ queries, query.isLegible = true)
    (hread : ∀ query ∈ queries,
      readItems truth levels (query.text fuzziness) = query.items truth fuzziness) :
    readItems truth levels (alternatives (queries.map (text fuzziness))) =
      allItems truth fuzziness queries := by
  have hclosed : ∀ inside ∈ queries.map (text fuzziness), Closed inside := by
    intro inside hinside
    obtain ⟨query, hmem, rfl⟩ := List.mem_map.mp hinside
    exact closed_text (hlegible query hmem) fuzziness
  rw [readItems_alternatives hclosed (by simpa using hne), List.flatMap_map, allItems_eq_flatMap,
    List.flatMap_def, List.flatMap_def, List.map_congr_left hread]

/-- The items of a composition are read one by one, if its clauses are read as their items. -/
theorem map_itemOutcome_itemTexts {must filter mustNot should : List Query}
    {minimum : Option Int32} {levels : Nat}
    (hlegible : (bool must filter mustNot should minimum).isLegible = true)
    (hmust : ∀ query ∈ must,
      readItems truth levels (query.text fuzziness) = query.items truth fuzziness)
    (hfilter : ∀ query ∈ filter,
      readItems truth levels (query.text fuzziness) = query.items truth fuzziness)
    (hmustNot : ∀ query ∈ mustNot,
      readItems truth levels (query.text fuzziness) = query.items truth fuzziness)
    (hshould : ∀ query ∈ should,
      readItems truth levels (query.text fuzziness) = query.items truth fuzziness) :
    (itemTexts fuzziness must filter mustNot should).map
        (itemOutcome truth fun inside => matchTogether (readItems truth levels inside)) =
      (bool must filter mustNot should minimum).items truth fuzziness := by
  obtain ⟨lmust, lfilter, lmustNot, lshould⟩ := isTidy_bool.mp hlegible
  have hsigned : (signedTexts fuzziness must filter mustNot).map
        (itemOutcome truth fun inside => matchTogether (readItems truth levels inside)) =
      clauseItems truth fuzziness .required must ++ clauseItems truth fuzziness .required filter ++
        clauseItems truth fuzziness .prohibited mustNot := by
    rw [← map_itemOutcome_clauseTexts lmust hmust, ← map_itemOutcome_clauseTexts lfilter hfilter,
      ← map_itemOutcome_clauseTexts lmustNot hmustNot]
    simp only [signedTexts, List.map_append, List.map_map]
    rfl
  have hempty : signedTexts fuzziness must filter mustNot = [] ↔
      must = [] ∧ filter = [] ∧ mustNot = [] := by
    simp [signedTexts]
  rw [items, itemTexts, List.map_append, hsigned]
  refine (List.append_right_inj _).mpr ?_
  by_cases hnone : should = []
  · simp [optionalGroup, hnone]
  · rw [optionalGroup, if_neg (by simpa using hnone), if_neg hnone,
      ← readItems_alternatives_texts hnone lshould hshould]
    by_cases hsign : must = [] ∧ filter = [] ∧ mustNot = []
    · rw [if_pos (hempty.mpr hsign), if_pos hsign, List.map_singleton]
      exact congrArg (fun matched => [(Sign.optional, matched)]) (bodyOutcome_parenthesized _)
    · rw [if_neg (fun h => hsign (hempty.mp h)), if_neg hsign, List.map_singleton]
      exact congrArg (fun matched => [(Sign.required, matched)]) (bodyOutcome_parenthesized _)

/-- The text of a legible query is read as the items of the query, if the reader goes down far
enough. -/
theorem readItems_text {query : Query} (hlegible : query.isLegible = true) {levels : Nat}
    (hlevels : (query.text fuzziness).length < levels) :
    readItems truth levels (query.text fuzziness) = query.items truth fuzziness := by
  induction query using Query.induction generalizing levels with
  | leaf query hleaf =>
    obtain ⟨levels, rfl⟩ := Nat.exists_eq_succ_of_ne_zero (Nat.ne_zero_of_lt hlevels)
    have hfield := isFieldText_text hleaf hlegible fuzziness
    have hne : query.text fuzziness ≠ [] := List.ne_nil_of_mem hfield.colon_mem
    have hor : query.text fuzziness ≠ orWord := fun heq =>
      absurd (heq ▸ hfield.colon_mem) (by decide)
    have hword : itemWords (query.text fuzziness) = [query.text fuzziness] := by
      simp [itemWords, hfield.solid.words_eq, hne, hor]
    rw [readItems, hword, List.map_singleton,
      (itemOutcome_of_not_startsItem hfield.startsItem_eq).1, items_of_kind_ne hleaf]
  | bool must filter mustNot should minimum hmust hfilter hmustNot hshould =>
    obtain ⟨levels, rfl⟩ := Nat.exists_eq_succ_of_ne_zero (Nat.ne_zero_of_lt hlevels)
    have hlt : ∀ query ∈ must ++ filter ++ mustNot ++ should,
        (query.text fuzziness).length < levels := fun query hmem =>
      Nat.lt_of_lt_of_le (length_text_lt hmem fuzziness) (Nat.le_of_lt_succ hlevels)
    simp only [List.mem_append, or_assoc, or_imp, forall_and] at hlt
    obtain ⟨lmust, lfilter, lmustNot, lshould⟩ := isTidy_bool.mp hlegible
    rw [readItems, ← map_itemOutcome_itemTexts hlegible
      (fun query hmem => hmust query hmem (lmust query hmem) (hlt.1 query hmem))
      (fun query hmem => hfilter query hmem (lfilter query hmem) (hlt.2.1 query hmem))
      (fun query hmem => hmustNot query hmem (lmustNot query hmem) (hlt.2.2.1 query hmem))
      (fun query hmem => hshould query hmem (lshould query hmem) (hlt.2.2.2 query hmem))]
    refine congrArg (List.map _) ?_
    by_cases hitems : itemTexts fuzziness must filter mustNot should = []
    · rw [itemWords, words_text_bool hlegible, if_pos hitems, hitems]
      rfl
    · refine itemWords_of_startsItem ?_ fun item hitem => startsItem_of_mem_itemTexts hitem
      rw [words_text_bool hlegible, if_neg hitems]

end Reading

/-! ## Alternatives that stay apart -/

/-- Whether the text of a query is one item without a sign: whether the query is a single clause or
has optional clauses only. -/
def isOneItem : Query → Bool
  | bool must filter mustNot should _ =>
      must.isEmpty && filter.isEmpty && mustNot.isEmpty && !should.isEmpty
  | _ => true

mutual

/-- Whether in every composition of a query each of several alternatives is one item. -/
def keepsAlternatives : Query → Bool
  | bool must filter mustNot should _ =>
      allKeepAlternatives must && allKeepAlternatives filter && allKeepAlternatives mustNot &&
        allKeepAlternatives should && (should.length ≤ 1 || should.all isOneItem)
  | _ => true

/-- Whether this is so in every one of some queries. -/
def allKeepAlternatives : List Query → Bool
  | [] => true
  | query :: rest => query.keepsAlternatives && allKeepAlternatives rest

end

theorem allKeepAlternatives_eq_all (queries : List Query) :
    allKeepAlternatives queries = queries.all keepsAlternatives := by
  induction queries with
  | nil => rfl
  | cons query rest ih => rw [allKeepAlternatives, ih, List.all_cons]

theorem keepsAlternatives_of_all {queries : List Query} (h : allKeepAlternatives queries = true) :
    ∀ query ∈ queries, query.keepsAlternatives = true := by
  rw [allKeepAlternatives_eq_all] at h
  exact List.all_eq_true.mp h

theorem items_of_isOneItem {query : Query} (h : query.isOneItem = true) :
    query.items truth fuzziness =
      [(.optional, matchTogether (query.items truth fuzziness))] := by
  by_cases hkind : query.kind = .bool
  · cases query with
    | bool must filter mustNot should minimum =>
      simp only [isOneItem, Bool.and_eq_true, List.isEmpty_iff, Bool.not_eq_true',
        List.isEmpty_eq_false_iff] at h
      obtain ⟨⟨⟨rfl, rfl⟩, rfl⟩, hshould⟩ := h
      simp [items, clauseItems, hshould]
    | _ => exact nomatch hkind
  · rw [items_of_kind_ne hkind, matchTogether_singleton_optional]

/-- A group matches if one of its alternatives does, provided that there is one alternative only
or each is one item. -/
theorem matchTogether_allItems {queries : List Query} (hne : queries ≠ [])
    (hsingle : queries.length ≤ 1 ∨ ∀ query ∈ queries, query.isOneItem = true)
    (h : ∀ query ∈ queries,
      matchTogether (query.items truth fuzziness) = query.holds truth fuzziness) :
    matchTogether (allItems truth fuzziness queries) = anyHolds truth fuzziness queries := by
  have hany : (queries.any fun query => matchTogether (query.items truth fuzziness)) =
      anyHolds truth fuzziness queries := by
    rw [anyHolds_eq_any, Bool.eq_iff_iff, List.any_eq_true, List.any_eq_true]
    refine exists_congr fun query => and_congr_right fun hmem => ?_
    rw [h query hmem]
  rw [← hany, allItems_eq_flatMap]
  rcases hsingle with hlength | hone
  · obtain ⟨query, rfl⟩ : ∃ query, queries = [query] :=
      List.length_eq_one_iff.mp (Nat.le_antisymm hlength (List.length_pos_iff.mpr hne))
    simp
  · have hitems : queries.flatMap (items truth fuzziness) =
        (queries.map fun query => matchTogether (query.items truth fuzziness)).map
          fun matched => (.optional, matched) := by
      rw [List.map_map, List.map_eq_flatMap, List.flatMap_def, List.flatMap_def]
      exact congrArg _ (List.map_congr_left fun query hmem => items_of_isOneItem (hone query hmem))
    rw [hitems, matchTogether_optional, List.any_map]
    simp [hne]

/-- Clauses with a sign have no objection if each of their queries has none. -/
theorem all_admits_clauseItems {sign : Sign} {queries : List Query}
    (h : ∀ query ∈ queries,
      matchTogether (query.items truth fuzziness) = query.holds truth fuzziness) :
    ((clauseItems truth fuzziness sign queries).all fun item => item.1.admits item.2) =
      queries.all fun query => sign.admits (query.holds truth fuzziness) := by
  rw [clauseItems_eq_map, List.all_map, Bool.eq_iff_iff, List.all_eq_true, List.all_eq_true]
  refine forall₂_congr fun query hmem => ?_
  simp only [Function.comp_apply, h query hmem]

/-- The clauses with signs have no objection if and only if those that are meant to match do and the
others do not. -/
theorem all_admits_signedItems {must filter mustNot : List Query}
    (hmust : ∀ query ∈ must,
      matchTogether (query.items truth fuzziness) = query.holds truth fuzziness)
    (hfilter : ∀ query ∈ filter,
      matchTogether (query.items truth fuzziness) = query.holds truth fuzziness)
    (hmustNot : ∀ query ∈ mustNot,
      matchTogether (query.items truth fuzziness) = query.holds truth fuzziness) :
    ((clauseItems truth fuzziness .required must ++
        clauseItems truth fuzziness .required filter ++
        clauseItems truth fuzziness .prohibited mustNot).all fun item => item.1.admits item.2) =
      (allHold truth fuzziness must && allHold truth fuzziness filter &&
        !anyHolds truth fuzziness mustNot) := by
  rw [List.all_append, List.all_append, all_admits_clauseItems hmust,
    all_admits_clauseItems hfilter, all_admits_clauseItems hmustNot, allHold_eq_all,
    allHold_eq_all, anyHolds_eq_any, List.not_any_eq_all_not]
  rfl

theorem ne_optional_of_mem_signedItems {must filter mustNot : List Query} {item : Sign × Bool}
    (h : item ∈ clauseItems truth fuzziness .required must ++
      clauseItems truth fuzziness .required filter ++
      clauseItems truth fuzziness .prohibited mustNot) : item.1 ≠ .optional := by
  simp only [clauseItems_eq_map, List.mem_append, List.mem_map] at h
  rcases h with (⟨query, _, rfl⟩ | ⟨query, _, rfl⟩) | ⟨query, _, rfl⟩ <;> nofun

/-- The items of a query match together if and only if the query matches. -/
theorem matchTogether_items {query : Query} (hkeeps : query.keepsAlternatives = true) :
    matchTogether (query.items truth fuzziness) = query.holds truth fuzziness := by
  induction query using Query.induction with
  | leaf query hleaf =>
    rw [items_of_kind_ne hleaf, holds_of_kind_ne hleaf, matchTogether_singleton_optional]
  | bool must filter mustNot should minimum hmust hfilter hmustNot hshould =>
    simp only [keepsAlternatives, Bool.and_eq_true, Bool.or_eq_true, decide_eq_true_eq,
      List.all_eq_true] at hkeeps
    obtain ⟨⟨⟨⟨kmust, kfilter⟩, kmustNot⟩, kshould⟩, hsingle⟩ := hkeeps
    have hsigned := all_admits_signedItems
      (fun query hmem => hmust query hmem (keepsAlternatives_of_all kmust query hmem))
      (fun query hmem => hfilter query hmem (keepsAlternatives_of_all kfilter query hmem))
      (fun query hmem => hmustNot query hmem (keepsAlternatives_of_all kmustNot query hmem))
    rw [items, holds, ← hsigned]
    by_cases hnone : should = []
    · rw [if_pos hnone, List.append_nil, hnone,
        matchTogether_of_ne_optional fun _ hitem => ne_optional_of_mem_signedItems hitem]
      simp
    · have hgroup := matchTogether_allItems hnone hsingle fun query hmem =>
        hshould query hmem (keepsAlternatives_of_all kshould query hmem)
      have hsome : should.isEmpty = false := by simpa using hnone
      rw [if_neg hnone, hgroup, hsome, Bool.false_or]
      by_cases hsign : must = [] ∧ filter = [] ∧ mustNot = []
      · obtain ⟨rfl, rfl, rfl⟩ := hsign
        simp [clauseItems]
      · rw [if_neg hsign, matchTogether_concat_required]

end Query

/-- The query string of a query matches if and only if the query does. -/
theorem matchesText_emitWith {query : Query} (hlegible : query.isLegible = true)
    (hkeeps : query.keepsAlternatives = true) (truth : List Char → Bool) (fuzziness : UInt32) :
    matchesText truth (query.emitWith fuzziness) = query.holds truth fuzziness := by
  rw [matchesText, Query.toList_emitWith,
    Query.readItems_text hlegible (Nat.lt_succ_self _), Query.matchTogether_items hkeeps]

/-- Every kind of place for a composition: required, prohibited, a single alternative, and an
alternative that is one item beside a single clause. -/
def nestedAlternatives : Query :=
  .bool [.bool [.term "a" "x"] [] [] [.term "b" "(OR"] none] []
    [.bool [] [] [.existing "tag"] [.bool [] [.terms "c" ["1", "2 3"]] [] [] none] none]
    [.term "b" "y", .bool [] [] [] [.matching "d" "one", .term "e" "z"] none] none

theorem matchesText_emitWith_nestedAlternatives :
    nestedAlternatives.isLegible = true ∧ nestedAlternatives.keepsAlternatives = true ∧
      matchesText (· = "a:x".toList) (nestedAlternatives.emitWith 2) =
        nestedAlternatives.holds (· = "a:x".toList) 2 :=
  ⟨by decide, by decide, matchesText_emitWith (by decide) (by decide) _ 2⟩

/-- A required clause of one alternative, beside another alternative. -/
def mergedAlternatives : Query :=
  .bool [] [] [] [.bool [.term "a" "x"] [] [] [] none, .term "b" "y"] none

/-- What one of two alternatives requires is required of the whole group: where the second of
them matches alone, the query matches and its query string does not. -/
theorem matchesText_emitWith_ne_mergedAlternatives :
    mergedAlternatives.isClean = true ∧ mergedAlternatives.emitWith 2 = "(+a:x OR b:y)" ∧
      mergedAlternatives.holds (· = "b:y".toList) 2 = true ∧
        matchesText (· = "b:y".toList) (mergedAlternatives.emitWith 2) = false := by
  decide

end SearchQuery
