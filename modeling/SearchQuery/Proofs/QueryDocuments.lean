import SearchQuery.Proofs.Depth
import SearchQuery.Proofs.Emission
import SearchQuery.Proofs.Nesting
import SearchQuery.Proofs.NumberReading

/-!
# The documents of queries

`Query.document` is the document of a query: single values in short form, a number of edits in long
form, only those bounds that a range has, and all four lists of a composition.  It is read as the
query that it is the document of, if this has no empty field and no empty list of values and is no
deeper than is allowed (`readQuery_document`).

A document is read from its compact text as the value that it is (`parse_compact`), so the query
survives as a text, too (`parse_document`).
-/

namespace SearchQuery

open Json

/-! ## Documents -/

namespace Query

mutual

/-- Whether a query has no empty field and no empty list of values. -/
def isComplete : Query → Bool
  | term field _ | matching field _ | phrase field _ | beginning field _ | wildcard field _
  | fuzzy field _ _ | regexp field _ | existing field => field ≠ ""
  | terms field values => field ≠ "" && values ≠ []
  | ids values => values ≠ []
  | range bounds => bounds.field ≠ ""
  | bool must filter mustNot should _ =>
      allComplete must && allComplete filter && allComplete mustNot && allComplete should

/-- Whether some queries are complete. -/
def allComplete : List Query → Bool
  | [] => true
  | query :: rest => query.isComplete && allComplete rest

end

/-- The members of a document for the bounds that a range has. -/
def boundMembers (bounds : Range) : List (String × Value) :=
  Bound.all.filterMap fun bound =>
    (bounds.get? bound).map fun value => (bound.name, .string value)

mutual

/-- What the document of a query says of its kind. -/
def documentBody : Query → Value
  | term field value | matching field value | phrase field value | beginning field value
  | wildcard field value | regexp field value | fuzzy field value none =>
      .tagged field (.string value)
  | fuzzy field value (some n) =>
      .tagged field (.object [("value", .string value), ("fuzziness", .int n.toNat)])
  | terms field values => .tagged field (.strings values)
  | existing field => .tagged "field" (.string field)
  | ids values => .tagged "values" (.strings values)
  | range bounds => .tagged bounds.field (.object (boundMembers bounds))
  | bool must filter mustNot should minimum =>
      .object
        ([("must", .array (documents must)), ("filter", .array (documents filter)),
          ("must_not", .array (documents mustNot)), ("should", .array (documents should))] ++
          minimum.toList.map fun n => ("minimum_should_match", .int n.toInt))

/-- The documents of some queries. -/
def documents : List Query → List Value
  | [] => []
  | query :: rest => .tagged query.kind.name query.documentBody :: documents rest

end

/-- The document of a query. -/
def document (query : Query) : Value :=
  .tagged query.kind.name query.documentBody

/-- The members of the document of a composition. -/
def boolMembers (clauses : BoolClauses) : List (String × Value) :=
  (Occurrence.all.map fun occurrence =>
      (occurrence.name, .array (documents (clauses.get occurrence)))) ++
    clauses.minimumShouldMatch.toList.map fun n => ("minimum_should_match", .int n.toInt)

theorem documentBody_build (clauses : BoolClauses) :
    clauses.build.documentBody = .object (boolMembers clauses) :=
  rfl

theorem lookup_boolMembers (clauses : BoolClauses) (occurrence : Occurrence) :
    (boolMembers clauses).lookup occurrence.name =
      some (.array (documents (clauses.get occurrence))) := by
  cases occurrence <;> rfl

theorem documents_eq_map (queries : List Query) : documents queries = queries.map document := by
  induction queries with
  | nil => rfl
  | cons query rest ih => rw [documents, ih, List.map_cons, document]

theorem allComplete_iff {queries : List Query} :
    allComplete queries = true ↔ ∀ query ∈ queries, query.isComplete = true := by
  induction queries with
  | nil => simp [allComplete]
  | cons query rest ih => rw [allComplete, Bool.and_eq_true, ih, List.forall_mem_cons]

/-- A composition is complete if its clauses are. -/
theorem isComplete_build {clauses : BoolClauses} :
    clauses.build.isComplete = true ↔
      ∀ occurrence, ∀ query ∈ clauses.get occurrence, query.isComplete = true := by
  simp only [BoolClauses.build, isComplete, Bool.and_eq_true, allComplete_iff, and_assoc,
    Occurrence.forall_iff, BoolClauses.get]

theorem depth_le_of_mem_get {clauses : BoolClauses} {levels : Nat}
    (h : clauses.build.depth ≤ levels + 1) (occurrence : Occurrence) :
    ∀ query ∈ clauses.get occurrence, query.depth ≤ levels := by
  obtain ⟨⟨hmust, hfilter⟩, hmustNot, hshould⟩ := Document.depth_bool_le.mp h
  simp only [depthAll_le] at hmust hfilter hmustNot hshould
  revert occurrence
  exact Occurrence.forall_iff.mpr ⟨hmust, hfilter, hmustNot, hshould⟩

end Query

namespace Document

/-! ## Reading numbers -/

/-- A minimum is read alike from a number and from a string. -/
theorem minimum?_eq : minimum? = lenientNumber? Number.readInt32? Number.readInt32? :=
  congrArg (lenientNumber? · Number.readInt32?) (funext Number.readInt64?_bind_int32?)

theorem edits?_eq : edits? = lenientNumber? Number.readUInt32? Number.readUInt32? :=
  congrArg (lenientNumber? · Number.readUInt32?) (funext Number.readUInt64?_bind_uint32?)

/-! ## Reading clauses -/

section Clauses

variable {kind : Kind} {field : String} (hne : field ≠ "")

include hne

theorem firstField_tagged (value : Value) :
    firstField kind (.tagged field value) = .ok (field, value) := by
  rw [Value.tagged, firstField, if_neg hne]

theorem fieldAndValue_tagged (key value : String) :
    fieldAndValue kind key (.tagged field (.string value)) = .ok (field, value) := by
  rw [fieldAndValue, firstField_tagged hne]
  rfl

theorem readPair_tagged (key value : String) (make : String → String → Query) :
    readPair kind key make (.tagged field (.string value)) = .ok (make field value) := by
  rw [readPair, fieldAndValue_tagged hne]
  rfl

/-- A number of edits is written in long form. -/
theorem readFuzzy_documentBody (value : String) (fuzziness : Option UInt32) :
    readFuzzy (Query.fuzzy field value fuzziness).documentBody =
      .ok (.fuzzy field value fuzziness) := by
  cases fuzziness with
  | none =>
    rw [Query.documentBody, readFuzzy, fieldAndValue_tagged hne]
    rfl
  | some n =>
    have hnumber : edits? (.int n.toNat) = some n := by
      rw [edits?_eq, Value.int, lenientNumber?, String.toList_ofList]
      exact Number.readUInt32?_natText n
    have hvalue : fieldAndValue .fuzzy "value" (Query.fuzzy field value (some n)).documentBody =
        .ok (field, value) := by
      rw [fieldAndValue, Query.documentBody, firstField_tagged hne]
      rfl
    rw [readFuzzy, hvalue]
    exact congrArg (fun fuzziness => Except.ok (Query.fuzzy field value fuzziness)) hnumber

end Clauses

theorem scalarTexts_strings (kind : Kind) {values : List String} (hne : values ≠ []) :
    scalarTexts kind (values.map .string) = .ok values := by
  have htexts : (values.map Value.string).mapM (scalarText kind) = .ok values :=
    mapM_map_eq_ok fun value _ => rfl
  rw [scalarTexts, htexts, ok_bind, if_neg hne]
  rfl

theorem lookup_boundMembers (bounds : Range) (bound : Bound) :
    (Query.boundMembers bounds).lookup bound.name = (bounds.get? bound).map .string := by
  obtain ⟨field, gte, gt, lte, lt⟩ := bounds
  cases gte <;> cases gt <;> cases lte <;> cases lt <;> cases bound <;> rfl

theorem bound?_boundMembers (bounds : Range) (bound : Bound) :
    bound? (Query.boundMembers bounds) bound = .ok (bounds.get? bound) := by
  rw [bound?, lookup_boundMembers]
  cases bounds.get? bound <;> rfl

/-- What the document of a clause says is read as the clause. -/
theorem readClause_documentBody {entry : Value → Except DocumentError Query} {query : Query}
    (hkind : query.kind ≠ .bool) (hcomplete : query.isComplete = true) :
    readClause entry query.documentBody query.kind = .ok query := by
  cases query with
  | bool => exact absurd rfl hkind
  | term field value | matching field value | phrase field value | beginning field value
  | wildcard field value | regexp field value =>
    exact readPair_tagged (of_decide_eq_true hcomplete) _ value _
  | fuzzy field value fuzziness =>
    exact readFuzzy_documentBody (of_decide_eq_true hcomplete) value fuzziness
  | terms field values =>
    obtain ⟨hfield, hvalues⟩ := (Bool.and_eq_true ..).mp hcomplete
    rw [Query.kind, readClause, readTerms, Query.documentBody,
      firstField_tagged (of_decide_eq_true hfield), ok_bind, Value.strings]
    dsimp only
    rw [scalarTexts_strings .terms (of_decide_eq_true hvalues)]
    rfl
  | existing field => exact if_neg (of_decide_eq_true hcomplete)
  | ids values =>
    change (scalarTexts .ids (values.map .string)).map Query.ids = _
    rw [scalarTexts_strings .ids (of_decide_eq_true hcomplete)]
    rfl
  | range bounds =>
    rw [Query.kind, readClause, readRange, Query.documentBody,
      firstField_tagged (of_decide_eq_true hcomplete), ok_bind]
    simp only [bound?_boundMembers, ok_bind]
    rfl

/-! ## Reading queries -/

theorem clause?_tagged (kind : Kind) (body : Value) :
    clause? [(kind.name, body)] = some (kind, body) := by
  cases kind <;> rfl

theorem readOccurrence_documents {entry : Value → Except DocumentError Query}
    {queries : List Query} (h : ∀ query ∈ queries, entry query.document = .ok query)
    (occurrence : Occurrence) :
    readOccurrence entry occurrence (some (.array (Query.documents queries))) = .ok queries := by
  rw [Query.documents_eq_map]
  exact mapM_map_eq_ok h

theorem minimum_boolMembers (clauses : BoolClauses) :
    ((Query.boolMembers clauses).lookup "minimum_should_match" >>= minimum?) =
      clauses.minimumShouldMatch := by
  obtain ⟨must, filter, mustNot, should, minimum⟩ := clauses
  cases minimum with
  | none => rfl
  | some n =>
    change minimum? (.int n.toInt) = some n
    rw [minimum?_eq, Value.int, lenientNumber?, String.toList_ofList, Number.readInt32?_intText]

/-- What the document of a composition says is read as the composition, if its clauses are. -/
theorem readBool_documentBody {entry : Value → Except DocumentError Query} {clauses : BoolClauses}
    (h : ∀ occurrence, ∀ query ∈ clauses.get occurrence, entry query.document = .ok query) :
    readBool entry clauses.build.documentBody = .ok clauses.build := by
  have hoccurrence (occurrence : Occurrence) : readOccurrence entry occurrence
      ((Query.boolMembers clauses).lookup occurrence.name) = .ok (clauses.get occurrence) := by
    rw [Query.lookup_boolMembers]
    exact readOccurrence_documents (h occurrence) occurrence
  rw [Query.documentBody_build]
  simp only [readBool, Occurrence.reading, List.foldlM_cons, List.foldlM_nil, hoccurrence, ok_bind,
    pure_bind, minimum_boolMembers]
  rfl

/-- The document of a complete query is read as the query on as many levels as it has. -/
theorem readQuery_document {query : Query} (hcomplete : query.isComplete = true) (limit : Nat)
    {levels : Nat} (hlevels : query.depth ≤ levels) :
    readQuery limit levels query.document = .ok query := by
  have hread (levels : Nat) (query : Query) : readQuery limit (levels + 1) query.document =
      readClause (readQuery limit levels) query.documentBody query.kind := by
    rw [readQuery, Query.document, Value.tagged, readWith, clause?_tagged]
  induction query using Query.induction_build generalizing levels with
  | leaf query hkind =>
    cases levels with
    | zero => exact absurd query.depth_pos (by omega)
    | succ levels => rw [hread, readClause_documentBody hkind hcomplete]
  | build clauses ih =>
    cases levels with
    | zero => exact absurd clauses.build.depth_pos (by omega)
    | succ levels =>
      have hclauses (occurrence : Occurrence) : ∀ query ∈ clauses.get occurrence,
          readQuery limit levels query.document = .ok query := fun query hmem =>
        ih occurrence query hmem (Query.isComplete_build.mp hcomplete occurrence query hmem)
          (Query.depth_le_of_mem_get hlevels occurrence query hmem)
      rw [hread]
      exact readBool_documentBody hclauses

/-! ## Writing documents -/

theorem keys_filterMap_sublist (bounds : Range) (all : List Bound) :
    ((all.filterMap fun bound => (bounds.get? bound).map fun value =>
      (bound.name, Value.string value)).map Prod.fst).Sublist (all.map Bound.name) := by
  induction all with
  | nil => exact .slnil
  | cons bound all ih =>
    cases hvalue : bounds.get? bound with
    | none =>
      rw [List.filterMap_cons_none (by rw [hvalue]; rfl)]
      exact ih.cons _
    | some value =>
      rw [List.filterMap_cons_some (by rw [hvalue]; rfl)]
      exact ih.cons_cons _

theorem isWritten_boundMembers (bounds : Range) :
    (Value.object (Query.boundMembers bounds)).IsWritten := by
  have hnames : (Bound.all.map Bound.name).Nodup := by decide
  refine .object (hnames.sublist (keys_filterMap_sublist bounds Bound.all)) fun member hmem => ?_
  obtain ⟨bound, _, hbound⟩ := List.mem_filterMap.mp hmem
  obtain ⟨value, _, rfl⟩ := Option.map_eq_some_iff.mp hbound
  exact Value.isWritten_string value

theorem isWritten_documentBody {query : Query} (hkind : query.kind ≠ .bool) :
    query.documentBody.IsWritten := by
  cases query with
  | bool => exact absurd rfl hkind
  | term field value | matching field value | phrase field value | beginning field value
  | wildcard field value | regexp field value =>
    exact (Value.isWritten_string value).tagged field
  | terms field values => exact (Value.isWritten_strings values).tagged field
  | existing field => exact (Value.isWritten_string field).tagged "field"
  | ids values => exact (Value.isWritten_strings values).tagged "values"
  | range bounds => exact (isWritten_boundMembers bounds).tagged bounds.field
  | fuzzy field value fuzziness =>
    cases fuzziness with
    | none => exact (Value.isWritten_string value).tagged field
    | some n =>
      have hlong :
          (Value.object [("value", .string value), ("fuzziness", .int n.toNat)]).IsWritten := by
        refine .object (show ["value", "fuzziness"].Nodup by decide) ?_
        simp only [List.forall_mem_cons]
        exact ⟨Value.isWritten_string value, Value.isWritten_int n.toNat, nofun⟩
      exact hlong.tagged field

theorem isWritten_boolMembers {clauses : BoolClauses}
    (h : ∀ occurrence, ∀ query ∈ clauses.get occurrence, query.document.IsWritten) :
    (Value.object (Query.boolMembers clauses)).IsWritten := by
  refine .object ?_ fun member hmem => ?_
  · obtain ⟨must, filter, mustNot, should, minimum⟩ := clauses
    cases minimum with
    | none => exact (show ["must", "filter", "must_not", "should"].Nodup by decide)
    | some n =>
      exact (show ["must", "filter", "must_not", "should", "minimum_should_match"].Nodup by decide)
  · rcases List.mem_append.mp hmem with hmem | hmem
    · obtain ⟨occurrence, _, rfl⟩ := List.mem_map.mp hmem
      rw [Query.documents_eq_map]
      exact .array (List.forall_mem_map.mpr (h occurrence))
    · obtain ⟨n, _, rfl⟩ := List.mem_map.mp hmem
      exact Value.isWritten_int _

theorem isWritten_document (query : Query) : query.document.IsWritten := by
  induction query using Query.induction_build with
  | leaf query hkind => exact (isWritten_documentBody hkind).tagged query.kind.name
  | build clauses ih => exact (isWritten_boolMembers ih).tagged Kind.bool.name

/-! ## Texts -/

/-- There is no value in an empty text. -/
theorem ne_empty_of_read {text : String} {root : Value}
    (h : Value.read text.toList = .ok root) : text ≠ "" := by
  rintro rfl
  exact nomatch h

/-- What is left to do with a text that is neither empty nor too long nor malformed. -/
theorem parse_eq_readQuery {config : Config} {text : String} {root : Value} (hne : text ≠ "")
    (hsize : text.utf8ByteSize ≤ config.maxInputBytes)
    (hroot : Value.read text.toList = .ok root) :
    parse config text =
      readQuery config.maxNestingDepth config.maxNestingDepth (queryOf root) := by
  rw [parse, if_neg hne, if_neg (Nat.not_lt.mpr hsize), hroot]

/-- A document is read from its compact text as the value that it is. -/
theorem parse_compact {config : Config} {root : Value} (hfits : root.Fits maxNesting)
    (hsize : root.compact.utf8ByteSize ≤ config.maxInputBytes) :
    parse config root.compact =
      readQuery config.maxNestingDepth config.maxNestingDepth (queryOf root) := by
  have hread : Value.read root.compact.toList = .ok root := by
    rw [Value.compact, String.toList_ofList]
    exact Value.read_text hfits
  exact parse_eq_readQuery (ne_empty_of_read hread) hsize hread

/-- The name of a kind is not that of the member that wraps a query. -/
theorem queryOf_tagged (kind : Kind) (body : Value) :
    queryOf (.tagged kind.name body) = .tagged kind.name body := by
  cases kind <;> rfl

/-- A query without an empty field or an empty list of values survives as a document: within the
limits on depth, length and nesting it is read from the compact text of its document as what it is,
and the text is translated to its query string. -/
theorem parse_document {config : Config} {query : Query} (hcomplete : query.isComplete = true)
    (hdepth : query.depth ≤ config.maxNestingDepth)
    (hsize : query.document.compact.utf8ByteSize ≤ config.maxInputBytes)
    (hnesting : query.document.nesting ≤ 127) :
    parse config query.document.compact = .ok query ∧
      translate config query.document.compact =
        .ok (query.emitWith config.defaultFuzziness) := by
  have hfits : query.document.Fits maxNesting := (isWritten_document query).of_nesting_le hnesting
  have hparse : parse config query.document.compact = .ok query := by
    rw [parse_compact hfits hsize, Query.document, queryOf_tagged, ← Query.document]
    exact readQuery_document hcomplete config.maxNestingDepth hdepth
  refine ⟨hparse, ?_⟩
  rw [translate, hparse]
  rfl

/-- A misspelt value with a quote, a set of values and a range. -/
def sampleQuery : Query :=
  .bool [] [.fuzzy "ä" "b\"c" (some 3)] [.terms "tag" ["x", ""]]
    [.range { field := "n", lt := some "5" }] (some (-2))

theorem parse_document_sampleQuery :
    parse {} sampleQuery.document.compact = .ok sampleQuery ∧
      translate {} sampleQuery.document.compact = .ok (sampleQuery.emitWith 2) := by
  have hsize : sampleQuery.document.compact.utf8ByteSize ≤ 100 * 1024 := by decide +kernel
  exact parse_document (by decide) (by decide) hsize (by decide)

end Document

end SearchQuery
