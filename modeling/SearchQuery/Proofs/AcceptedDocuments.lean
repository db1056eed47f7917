import SearchQuery.Proofs.QueryDocuments

/-!
# Accepted documents

What the reader has checked of a document that it accepts, and what the query owes to it.

* `isComplete_of_readClause`: a clause that is read names its field, and its list of values has a
  value.
* `readBool_eq_ok` takes the reading of a composition apart, list by list, and `readQuery_induction`
  is induction over the queries of an accepted document.
* `Records` relates a document to its query.  The clauses of a composition correspond to the
  entries of the list of their name, one to one and in their order, on every level.
* `wellFormed_of_parse` is the result.
-/

namespace SearchQuery.Document

open Json

/-! ## Clauses -/

theorem firstField_eq_ok {kind : Kind} {body value : Value} {field : String}
    (hok : firstField kind body = .ok (field, value)) :
    field ≠ "" ∧ ∃ rest, body = .object ((field, value) :: rest) := by
  unfold firstField at hok
  split at hok
  · exact nomatch hok
  · split at hok
    · exact nomatch hok
    · rename_i hne
      cases hok
      exact ⟨hne, _, rfl⟩
  · exact nomatch hok

/-- Every way to the value of a field keeps the field. -/
theorem firstField_of_fieldAndValue {kind : Kind} {key : String} {body : Value}
    {field value : String} (hok : fieldAndValue kind key body = .ok (field, value)) :
    ∃ said, firstField kind body = .ok (field, said) := by
  obtain ⟨⟨first, said⟩, hfirst, hok⟩ := bind_eq_ok.mp hok
  have hfield : first = field := by
    dsimp only at hok
    split at hok
    · split at hok
      · obtain ⟨_, _, ⟨⟩⟩ := bind_eq_ok.mp hok
        rfl
      · exact nomatch hok
    · obtain ⟨_, _, ⟨⟩⟩ := bind_eq_ok.mp hok
      rfl
  exact ⟨said, hfield ▸ hfirst⟩

theorem ne_empty_of_fieldAndValue {kind : Kind} {key : String} {body : Value} {field value : String}
    (hok : fieldAndValue kind key body = .ok (field, value)) : field ≠ "" := by
  obtain ⟨said, hfirst⟩ := firstField_of_fieldAndValue hok
  exact (firstField_eq_ok hfirst).1

theorem ne_nil_of_scalarTexts {kind : Kind} {values : List Value} {texts : List String}
    (hok : scalarTexts kind values = .ok texts) : texts ≠ [] := by
  obtain ⟨read, _, hok⟩ := bind_eq_ok.mp hok
  by_cases hempty : read = []
  · rw [if_pos hempty] at hok
    exact nomatch hok
  · rw [if_neg hempty] at hok
    cases hok
    exact hempty

theorem isComplete_of_readPair {kind : Kind} {key : String} {make : String → String → Query}
    {body : Value} {query : Query}
    (hmake : ∀ field value, field ≠ "" → (make field value).isComplete = true)
    (hok : readPair kind key make body = .ok query) : query.isComplete = true := by
  obtain ⟨⟨field, value⟩, hpair, ⟨⟩⟩ := bind_eq_ok.mp hok
  exact hmake field value (ne_empty_of_fieldAndValue hpair)

theorem isComplete_of_readExisting {body : Value} {query : Query}
    (hok : readExisting body = .ok query) : query.isComplete = true := by
  unfold readExisting at hok
  split at hok
  · split at hok
    · exact nomatch hok
    · rename_i hfield
      cases hok
      exact decide_eq_true hfield
  · exact nomatch hok

theorem isComplete_of_readIds {body : Value} {query : Query} (hok : readIds body = .ok query) :
    query.isComplete = true := by
  unfold readIds at hok
  split at hok
  · obtain ⟨texts, htexts, rfl⟩ := map_eq_ok.mp hok
    exact decide_eq_true (ne_nil_of_scalarTexts htexts)
  · exact nomatch hok

/-- A clause is only read if its field has a name and its list of values has a value. -/
theorem isComplete_of_readClause {entry : Value → Except DocumentError Query} {body : Value}
    {kind : Kind} {query : Query} (hkind : kind ≠ .bool)
    (hok : readClause entry body kind = .ok query) : query.isComplete = true := by
  cases kind with
  | bool => exact absurd rfl hkind
  | term | matching | phrase | beginning | wildcard | regexp =>
    refine isComplete_of_readPair (fun field value hfield => ?_) hok
    exact decide_eq_true hfield
  | terms =>
    obtain ⟨⟨field, values⟩, hfirst, hok⟩ := bind_eq_ok.mp hok
    cases values with
    | array values =>
      obtain ⟨texts, htexts, ⟨⟩⟩ := bind_eq_ok.mp hok
      exact (Bool.and_eq_true ..).mpr ⟨decide_eq_true (firstField_eq_ok hfirst).1,
        decide_eq_true (ne_nil_of_scalarTexts htexts)⟩
    | _ => exact nomatch hok
  | fuzzy =>
    obtain ⟨⟨field, value⟩, hpair, ⟨⟩⟩ := bind_eq_ok.mp hok
    exact decide_eq_true (ne_empty_of_fieldAndValue hpair)
  | existing => exact isComplete_of_readExisting hok
  | ids => exact isComplete_of_readIds hok
  | range =>
    obtain ⟨⟨field, bounds⟩, hfirst, hok⟩ := bind_eq_ok.mp hok
    cases bounds with
    | object members =>
      obtain ⟨gte, _, hok⟩ := bind_eq_ok.mp hok
      obtain ⟨gt, _, hok⟩ := bind_eq_ok.mp hok
      obtain ⟨lte, _, hok⟩ := bind_eq_ok.mp hok
      obtain ⟨lt, _, ⟨⟩⟩ := bind_eq_ok.mp hok
      exact decide_eq_true (firstField_eq_ok hfirst).1
    | _ => exact nomatch hok

/-! ## Compositions -/

/-- The entries of a list of queries.  A single query stands for a list of itself. -/
def entries : Option Value → List Value
  | some (.array entries) => entries
  | some (.object members) => [.object members]
  | _ => []

/-- The entries are read one by one, and none is left out. -/
theorem readOccurrence_eq_ok {entry : Value → Except DocumentError Query} {occurrence : Occurrence}
    {value : Option Value} {queries : List Query}
    (hok : readOccurrence entry occurrence value = .ok queries) :
    List.Forall₂ (fun value query => entry value = .ok query) (entries value) queries := by
  unfold readOccurrence at hok
  split at hok
  · cases hok
    exact .nil
  · exact mapM_eq_ok.mp hok
  · obtain ⟨query, hquery, ⟨⟩⟩ := bind_eq_ok.mp hok
    exact .cons hquery .nil
  · exact nomatch hok

/-- The lists of a composition are read in one order and written in another.  Each keeps the
entries of its own name. -/
theorem readBool_eq_ok {entry : Value → Except DocumentError Query} {body : Value} {query : Query}
    (hok : readBool entry body = .ok query) :
    ∃ members clauses, body = .object members ∧ query = BoolClauses.build clauses ∧
      clauses.minimumShouldMatch =
        (members.lookup "minimum_should_match" >>= minimum?) ∧
      ∀ occurrence, List.Forall₂ (fun value query => entry value = .ok query)
        (entries (members.lookup occurrence.name)) (clauses.get occurrence) := by
  cases body with
  | object members =>
    rw [readBool_object] at hok
    obtain ⟨must, hmust, hok⟩ := bind_eq_ok.mp hok
    obtain ⟨should, hshould, hok⟩ := bind_eq_ok.mp hok
    obtain ⟨mustNot, hmustNot, hok⟩ := bind_eq_ok.mp hok
    obtain ⟨filter, hfilter, ⟨⟩⟩ := bind_eq_ok.mp hok
    refine ⟨members, ⟨must, filter, mustNot, should, _⟩, rfl, rfl, rfl, ?_⟩
    exact Occurrence.forall_iff.mpr ⟨readOccurrence_eq_ok hmust, readOccurrence_eq_ok hfilter,
      readOccurrence_eq_ok hmustNot, readOccurrence_eq_ok hshould⟩
  | _ => exact nomatch hok

theorem readWith_eq_ok {entry : Value → Except DocumentError Query} {value : Value} {query : Query}
    (hok : readWith entry value = .ok query) :
    ∃ members kind body, value = .object members ∧ clause? members = some (kind, body) ∧
      readClause entry body kind = .ok query := by
  unfold readWith at hok
  split at hok
  · split at hok
    · exact ⟨_, _, _, rfl, ‹_›, hok⟩
    · exact nomatch hok
  · exact nomatch hok

/-- Induction over the queries of an accepted document: from the entries of a composition to the
composition. -/
theorem readQuery_induction {limit : Nat} {motive : Value → Query → Prop}
    (clause : ∀ entry members kind body query, clause? members = some (kind, body) →
      kind ≠ .bool → readClause entry body kind = .ok query → motive (.object members) query)
    (composition : ∀ members body (clauses : BoolClauses),
      clause? members = some (.bool, .object body) →
      clauses.minimumShouldMatch =
        (body.lookup "minimum_should_match" >>= minimum?) →
      (∀ occurrence : Occurrence, List.Forall₂ motive (entries (body.lookup occurrence.name))
        (clauses.get occurrence)) → motive (.object members) clauses.build)
    {levels : Nat} {value : Value} {query : Query}
    (hok : readQuery limit levels value = .ok query) : motive value query := by
  induction levels generalizing value query with
  | zero => exact nomatch hok
  | succ levels ih =>
    obtain ⟨members, kind, body, rfl, hclause, hread⟩ := readWith_eq_ok hok
    by_cases hkind : kind = .bool
    · subst hkind
      obtain ⟨body, clauses, rfl, rfl, hminimum, hentries⟩ := readBool_eq_ok hread
      exact composition members body clauses hclause hminimum fun occurrence =>
        (hentries occurrence).imp fun _ _ => ih
    · exact clause (readQuery limit levels) members kind body query hclause hkind hread

theorem isComplete_of_readQuery {limit levels : Nat} {value : Value} {query : Query}
    (hok : readQuery limit levels value = .ok query) : query.isComplete = true := by
  refine readQuery_induction (motive := fun _ query => query.isComplete = true) ?_ ?_ hok
  · intro entry members kind body query _ hkind hread
    exact isComplete_of_readClause hkind hread
  · intro members body clauses _ _ hclauses
    refine Query.isComplete_build.mpr fun occurrence => ?_
    have hall := hclauses occurrence
    generalize entries (body.lookup occurrence.name) = values at hall
    generalize clauses.get occurrence = queries at hall
    induction hall with
    | nil => exact nofun
    | cons hquery _ ih => exact List.forall_mem_cons.mpr ⟨hquery, ih⟩

/-! ## Documents and their queries -/

/-- What a value of a document has to do with the query that it is read as.  The clauses of a
composition correspond to the entries of the lists of their names, one to one and in order; any
other clause is what the reader makes of it on a single level. -/
inductive Records : Value → Query → Prop where
  | clause {value : Value} {query : Query} (hkind : query.kind ≠ .bool)
      (hread : readQuery 1 1 value = .ok query) : Records value query
  | composition {members body : List (String × Value)} {clauses : BoolClauses}
      (hclause : clause? members = some (.bool, .object body))
      (hminimum : clauses.minimumShouldMatch =
        (body.lookup "minimum_should_match" >>= minimum?))
      (hentries : ∀ occurrence : Occurrence, List.Forall₂ Records
        (entries (body.lookup occurrence.name)) (clauses.get occurrence)) :
      Records (.object members) clauses.build

theorem records_of_readQuery {limit levels : Nat} {value : Value} {query : Query}
    (hok : readQuery limit levels value = .ok query) : Records value query := by
  refine readQuery_induction (motive := Records) ?_ ?_ hok
  · intro entry members kind body query hclause hkind hread
    refine .clause (kind_of_readClause hread ▸ hkind) ?_
    rw [readQuery, readWith, hclause]
    exact (readClause_eq_of_kind_ne (readQuery 1 0) entry body hkind).trans hread
  · intro members body clauses hclause hminimum hentries
    exact .composition hclause hminimum hentries

/-! ## Accepted texts -/

theorem parse_eq_ok {config : Config} {text : String} {query : Query}
    (hok : parse config text = .ok query) :
    text ≠ "" ∧ text.utf8ByteSize ≤ config.maxInputBytes ∧
      ∃ root, Value.read text.toList = .ok root ∧
        readQuery config.maxNestingDepth config.maxNestingDepth (queryOf root) = .ok query := by
  unfold parse at hok
  split at hok
  · exact nomatch hok
  · rename_i hne
    split at hok
    · exact nomatch hok
    · rename_i hsize
      split at hok
      · exact nomatch hok
      · rename_i root hroot
        exact ⟨hne, Nat.not_lt.mp hsize, root, hroot, hok⟩

theorem isComplete_of_parse {config : Config} {text : String} {query : Query}
    (hok : parse config text = .ok query) : query.isComplete = true := by
  obtain ⟨_, _, _, _, hread⟩ := parse_eq_ok hok
  exact isComplete_of_readQuery hread

/-- An accepted text is neither empty nor too long, and its query is well formed.  On every level,
no field and no list of values is empty, and every entry of a list of queries is a clause of the
list of that name, in its place. -/
theorem wellFormed_of_parse {config : Config} {text : String} {query : Query}
    (hok : parse config text = .ok query) :
    text ≠ "" ∧ text.utf8ByteSize ≤ config.maxInputBytes ∧ query.isComplete = true ∧
      ∃ root, Value.read text.toList = .ok root ∧ Records (queryOf root) query := by
  obtain ⟨hne, hsize, root, hroot, hread⟩ := parse_eq_ok hok
  exact ⟨hne, hsize, isComplete_of_readQuery hread, root, hroot, records_of_readQuery hread⟩

/-- A composition in a composition, with a single query in place of a list and the lists in an
order of their own. -/
def nestedDocument : Value :=
  .tagged "query" (.tagged "bool" (.object
    [("should", .array [.tagged "exists" (.tagged "field" (.string "a")),
        .tagged "bool" (.tagged "filter" (.tagged "term" (.tagged "b" (.string "x"))))]),
      ("must", .tagged "ids" (.tagged "values" (.strings ["1"])))]))

theorem isWritten_nestedDocument : nestedDocument.IsWritten := by
  have hexists := ((Value.isWritten_string "a").tagged "field").tagged "exists"
  have hnested := ((((Value.isWritten_string "x").tagged "b").tagged "term").tagged
    "filter").tagged "bool"
  have hids := ((Value.isWritten_strings ["1"]).tagged "values").tagged "ids"
  refine .tagged (.tagged (.object (by decide) ?_) "bool") "query"
  simp only [List.forall_mem_cons]
  refine ⟨.array ?_, hids, nofun⟩
  simp only [List.forall_mem_cons]
  exact ⟨hexists, hnested, nofun⟩

theorem wellFormed_of_parse_nestedDocument :
    parse {} nestedDocument.compact = .ok (.bool [.ids ["1"]] [] []
      [.existing "a", .bool [] [.term "b" "x"] [] [] none] none) ∧
    nestedDocument.compact.utf8ByteSize ≤ 102400 ∧
    ∃ root, Value.read nestedDocument.compact.toList = .ok root ∧
      Records (queryOf root) (.bool [.ids ["1"]] [] []
        [.existing "a", .bool [] [.term "b" "x"] [] [] none] none) := by
  have hsize : nestedDocument.compact.utf8ByteSize ≤ 102400 := by decide +kernel
  have hok : parse {} nestedDocument.compact = .ok (.bool [.ids ["1"]] [] []
      [.existing "a", .bool [] [.term "b" "x"] [] [] none] none) := by
    rw [parse_compact (isWritten_nestedDocument.of_nesting_le (by decide)) hsize]
    rfl
  obtain ⟨_, _, _, hrecords⟩ := wellFormed_of_parse hok
  exact ⟨hok, hsize, hrecords⟩

end SearchQuery.Document
