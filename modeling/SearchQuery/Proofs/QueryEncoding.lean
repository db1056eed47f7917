import SearchQuery.Proofs.Emission
import SearchQuery.Proofs.FormReading
import SearchQuery.Query.Encoding

/-!
# Reading queries back from JSON

A query is read from its JSON text as what it is, up to the depth that brackets may nest to
(`read_text_toJson`).  `Query.nesting` says how deep that is: a composition stands in three
brackets more than its clauses.

* `decodes_bodyForm` reads the record of a clause back, field by field.
* `decodes_form` is the induction over queries.  A query on one level asks for its clauses three
  levels below.
-/

namespace SearchQuery.Query

open Json

/-! ## Nesting -/

mutual

/-- How deep the brackets of the JSON form of a query nest. -/
def nesting : Query → Nat
  | terms .. => 3
  | ids .. => 3
  | bool must filter mustNot should _ =>
      3 + max (max (nestingAll must) (nestingAll filter))
        (max (nestingAll mustNot) (nestingAll should))
  | _ => 2

/-- How deep the brackets of the JSON forms of some queries nest, zero if there are none. -/
def nestingAll : List Query → Nat
  | [] => 0
  | query :: rest => max query.nesting (nestingAll rest)

end

theorem allToJson_eq_map (queries : List Query) : allToJson queries = queries.map toJson := by
  induction queries with
  | nil => rw [allToJson, List.map_nil]
  | cons query rest ih => rw [allToJson, ih, List.map_cons]

theorem nesting_optional_int (n : Option α) (toInt : α → Int) :
    (Value.optional (fun n => .int (toInt n)) n).nesting = 0 := by
  cases n <;> rfl

theorem nesting_optional_string (value : Option String) :
    (Value.optional .string value).nesting = 0 := by
  cases value <;> rfl

theorem itemsNesting_allToJson {queries : List Query}
    (h : ∀ query ∈ queries, query.toJson.nesting = query.nesting) :
    itemsNesting (allToJson queries) = nestingAll queries := by
  induction queries with
  | nil => rw [allToJson, itemsNesting, nestingAll]
  | cons query rest ih =>
    rw [allToJson, itemsNesting, nestingAll, h query List.mem_cons_self,
      ih fun other hother => h other (List.mem_cons_of_mem _ hother)]

theorem nesting_toJson (query : Query) : query.toJson.nesting = query.nesting := by
  induction query using Query.induction with
  | leaf query hkind =>
    cases query with
    | bool => exact absurd rfl hkind
    | terms | ids =>
      rw [toJson, nesting_tagged, bodyToJson]
      simp [Value.nesting, membersNesting, nesting_strings, nesting]
    | fuzzy =>
      rw [toJson, nesting_tagged, bodyToJson]
      simp [Value.nesting, membersNesting, nesting_optional_int, nesting]
    | range =>
      rw [toJson, nesting_tagged, bodyToJson, Range.toJson]
      simp [Value.nesting, membersNesting, Bound.all, nesting_optional_string, nesting]
    | _ =>
      rw [toJson, nesting_tagged, bodyToJson]
      simp [pairToJson, Value.nesting, membersNesting, nesting]
  | bool must filter mustNot should minimum hmust hfilter hmustNot hshould =>
    rw [toJson, nesting_tagged, bodyToJson, nesting]
    simp only [Value.nesting, membersNesting, itemsNesting_allToJson hmust,
      itemsNesting_allToJson hfilter, itemsNesting_allToJson hmustNot,
      itemsNesting_allToJson hshould, nesting_optional_int]
    omega

/-! ## Records of clauses -/

section Records

variable {σ : Type} {level steps : Nat} {entry : Reader Query}

theorem decodes_strings {values : List String}
    (hsteps : (Value.strings values).text.length ≤ steps) :
    Decodes level (listForm steps (fun _ => stringForm) level) (.strings values) values :=
  decodes_listForm hsteps (fun value _ => isPresent_string value)
    fun _ _ value _ => decodes_stringForm value

theorem decodes_uint32 (n : Option UInt32) :
    Decodes level (optionForm (wholeForm Number.uint32?)) (.optional (fun n => .int n.toNat) n)
      n := by
  refine decodes_optionForm (fun n _ => isPresent_int n.toNat) fun n _ => ?_
  have hlt := n.toNat_lt
  exact decodes_wholeForm (by omega) (by omega) (Number.uint32?_toNat n)

theorem decodes_int32 (n : Option Int32) :
    Decodes level (optionForm (wholeForm Number.int32?)) (.optional (fun n => .int n.toInt) n)
      n := by
  refine decodes_optionForm (fun n _ => isPresent_int n.toInt) fun n _ => ?_
  have hlow := n.le_toInt
  have hhigh := n.toInt_lt
  exact decodes_wholeForm (by omega) (by omega) (Number.int32?_toInt n)

/-- A part of a clause as it is written. -/
inductive Part where
  | field (field : String)
  | value (value : String)
  | values (values : List String)
  | fuzziness (fuzziness : Option UInt32)

/-- A part of a clause as a field of its record. -/
def Part.written (steps : Nat) : Part → WrittenField Parts
  | .field name => ⟨fieldPart, .string name, fun parts => { parts with field := name }⟩
  | .value text => ⟨valuePart, .string text, fun parts => { parts with value := text }⟩
  | .values texts => ⟨valuesPart steps, .strings texts, fun parts => { parts with values := texts }⟩
  | .fuzziness edits =>
      ⟨fuzzinessPart, .optional (fun n => .int n.toNat) edits,
        fun parts => { parts with fuzziness := edits }⟩

theorem Part.decodes (part : Part) (hsteps : (part.written steps).value.text.length ≤ steps)
    (parts : Parts) :
    Decodes level ((part.written steps).field.read level parts) (part.written steps).value
      ((part.written steps).set parts) := by
  cases part with
  | field name => exact (decodes_stringForm name).map fun name => { parts with field := name }
  | value text => exact (decodes_stringForm text).map fun text => { parts with value := text }
  | values texts =>
    exact (decodes_strings hsteps).map fun texts => { parts with values := texts }
  | fuzziness edits =>
    exact (decodes_uint32 edits).map fun edits => { parts with fuzziness := edits }

/-- The record of a clause is read part by part. -/
theorem decodes_parts {form : RecordForm Parts Query} {query : Query} (parts : List Part)
    (hfields : form.fields = parts.map fun part => (part.written steps).field)
    (hnames : (form.fields.map (·.name)).Nodup)
    (hsteps : (recordValue (parts.map (Part.written steps))).text.length ≤ steps)
    (hfinish : form.finish ((parts.map (Part.written steps)).foldl
      (fun parts entry => entry.set parts) form.empty) = some query) :
    Decodes level (form.read steps level) (recordValue (parts.map (Part.written steps))) query := by
  refine decodes_record (by rw [hfields, List.map_map]; rfl) hnames hsteps ?_ hfinish
  intro below _ entry hmem
  obtain ⟨part, hpart, rfl⟩ := List.mem_map.mp hmem
  refine part.decodes ?_
  have hlt := length_text_lt_of_mem_written hmem
  exact Nat.le_of_lt (Nat.lt_of_lt_of_le hlt hsteps)

theorem decodes_pairForm {make : String → String → Query} {field value : String}
    (hsteps : (pairToJson field value).text.length ≤ steps) :
    Decodes level ((pairForm make).read steps level) (pairToJson field value) (make field value) :=
  decodes_parts [.field field, .value value] rfl (show ["field", "value"].Nodup by decide) hsteps
    rfl

/-- The field of a range as it is written. -/
def writtenRangeField (field : String) : WrittenField (Option String × Range) :=
  ⟨stringField "field" fun (_, bounds) field => (some field, bounds), .string field,
    fun state => (some field, state.2)⟩

/-- A bound of a range as it is written. -/
def writtenBound (range : Range) (bound : Bound) : WrittenField (Option String × Range) :=
  ⟨boundPart bound, .optional .string (range.get? bound),
    fun state => (state.1, (range.get? bound).elim state.2 (state.2.set bound))⟩

theorem decodes_writtenRangeField (field : String) (state : Option String × Range) :
    Decodes level ((writtenRangeField field).field.read level state) (.string field)
      (some field, state.2) :=
  (decodes_stringForm field).map fun found => (some found, state.2)

theorem decodes_writtenBound (range : Range) (bound : Bound) (state : Option String × Range) :
    Decodes level ((writtenBound range bound).field.read level state)
      (.optional .string (range.get? bound))
      (state.1, (range.get? bound).elim state.2 (state.2.set bound)) := by
  have hoption : Decodes level (optionForm stringForm) (.optional .string (range.get? bound))
      (range.get? bound) :=
    decodes_optionForm (fun value _ => isPresent_string value) fun value _ =>
      decodes_stringForm value
  exact hoption.map fun found => (state.1, found.elim state.2 (state.2.set bound))

/-- The bounds are set one after another. -/
theorem foldl_writtenBound (range : Range) :
    (Bound.all.map (writtenBound range)).foldl (fun state entry => entry.set state)
      (some range.field, default) = (some range.field, { range with field := "" }) := by
  obtain ⟨field, gte, gt, lte, lt⟩ := range
  cases gte <;> cases gt <;> cases lte <;> cases lt <;> rfl

theorem decodes_rangeForm {range : Range} (hsteps : range.toJson.text.length ≤ steps) :
    Decodes level (rangeForm.read steps level) range.toJson (.range range) := by
  have hread : ∀ below, level = below + 1 →
      ∀ entry ∈ writtenRangeField range.field :: Bound.all.map (writtenBound range), ∀ state,
        Decodes below (entry.field.read below state) entry.value (entry.set state) := by
    intro below _
    rw [List.forall_mem_cons, List.forall_mem_map]
    exact ⟨decodes_writtenRangeField range.field, fun bound _ => decodes_writtenBound range bound⟩
  have hfinish : rangeForm.finish ((writtenRangeField range.field ::
      Bound.all.map (writtenBound range)).foldl (fun state entry => entry.set state)
        rangeForm.empty) = some (.range range) := by
    rw [List.foldl_cons]
    change rangeForm.finish ((Bound.all.map (writtenBound range)).foldl _
      (some range.field, default)) = _
    rw [foldl_writtenBound]
    rfl
  exact decodes_record rfl (by decide) hsteps hread hfinish

/-- The record of a clause that is no composition. -/
theorem decodes_bodyForm_leaf {query : Query} (hkind : query.kind ≠ .bool)
    (hsteps : query.bodyToJson.text.length ≤ steps) :
    Decodes level (bodyForm steps entry query.kind level) query.bodyToJson query := by
  cases query with
  | bool => exact absurd rfl hkind
  | term field value | matching field value | phrase field value | beginning field value
    | wildcard field value | regexp field value =>
    rw [bodyToJson] at hsteps ⊢
    exact decodes_pairForm hsteps
  | terms field values =>
    rw [bodyToJson] at hsteps ⊢
    exact decodes_parts [.field field, .values values] rfl
      (show ["field", "values"].Nodup by decide) hsteps rfl
  | fuzzy field value fuzziness =>
    rw [bodyToJson] at hsteps ⊢
    exact decodes_parts [.field field, .value value, .fuzziness fuzziness] rfl
      (show ["field", "value", "fuzziness"].Nodup by decide) hsteps rfl
  | existing field =>
    rw [bodyToJson] at hsteps ⊢
    exact decodes_parts [.field field] rfl (show ["field"].Nodup by decide) hsteps rfl
  | ids values =>
    rw [bodyToJson] at hsteps ⊢
    exact decodes_parts [.values values] rfl (show ["values"].Nodup by decide) hsteps rfl
  | range range =>
    rw [bodyToJson] at hsteps ⊢
    exact decodes_rangeForm hsteps

/-! ## Records of compositions -/

/-- The parts of a composition with the clauses of one occurrence. -/
def BoolParts.withClauses (parts : BoolParts) (queries : List Query) : Occurrence → BoolParts
  | .must => { parts with must := queries }
  | .filter => { parts with filter := queries }
  | .mustNot => { parts with mustNot := queries }
  | .should => { parts with should := queries }

/-- The clauses of one occurrence as they are written. -/
def writtenClauses (steps : Nat) (entry : Reader Query) (clauses : BoolClauses)
    (occurrence : Occurrence) : WrittenField BoolParts :=
  ⟨.of occurrence.name (boolForm.clauses steps entry)
      fun parts queries => parts.withClauses queries occurrence,
    .array ((clauses.get occurrence).map toJson),
    fun parts => parts.withClauses (clauses.get occurrence) occurrence⟩

/-- The value of `minimum_should_match` as it is written. -/
def writtenMinimum (minimum : Option Int32) : WrittenField BoolParts :=
  ⟨.of "minimum_should_match" (fun _ => optionForm (wholeForm Number.int32?))
      fun parts minimum => { parts with minimum },
    .optional (fun n => .int n.toInt) minimum, fun parts => { parts with minimum }⟩

/-- The record of a composition as it is written. -/
def writtenBool (steps : Nat) (entry : Reader Query) (clauses : BoolClauses) :
    List (WrittenField BoolParts) :=
  Occurrence.all.map (writtenClauses steps entry clauses) ++
    [writtenMinimum clauses.minimumShouldMatch]

theorem bodyToJson_build (entry : Reader Query) (clauses : BoolClauses) :
    clauses.build.bodyToJson = recordValue (writtenBool steps entry clauses) := by
  rw [BoolClauses.build, bodyToJson]
  simp only [allToJson_eq_map]
  rfl

theorem length_text_lt_of_mem_clauses {clauses : BoolClauses} {occurrence : Occurrence}
    {query : Query} (h : query ∈ clauses.get occurrence) :
    query.toJson.text.length < clauses.build.bodyToJson.text.length := by
  have hquery : query.toJson ∈ (clauses.get occurrence).map toJson := List.mem_map_of_mem h
  have hlist : (occurrence.name, Value.array ((clauses.get occurrence).map toJson)) ∈
      [("must", Value.array (clauses.must.map toJson)),
        ("filter", .array (clauses.filter.map toJson)),
        ("must_not", .array (clauses.mustNot.map toJson)),
        ("should", .array (clauses.should.map toJson)),
        ("minimum_should_match",
          .optional (fun n => .int n.toInt) clauses.minimumShouldMatch)] := by
    cases occurrence <;> simp [BoolClauses.get, Occurrence.name]
  rw [BoolClauses.build, bodyToJson]
  simp only [allToJson_eq_map]
  exact Nat.lt_trans (length_text_lt_of_mem_items hquery) (length_text_lt_of_mem_members hlist)

/-- The record of a composition, whose clauses are read two levels below it. -/
theorem decodes_boolForm {clauses : BoolClauses}
    (hsteps : clauses.build.bodyToJson.text.length ≤ steps)
    (hentry : ∀ below, level = below + 2 → ∀ occurrence, ∀ query ∈ clauses.get occurrence,
      Decodes below entry query.toJson query) :
    Decodes level ((boolForm steps entry).read steps level) clauses.build.bodyToJson
      clauses.build := by
  rw [bodyToJson_build entry] at hsteps ⊢
  refine decodes_record rfl (show ["must", "filter", "must_not", "should",
    "minimum_should_match"].Nodup by decide) hsteps ?_ rfl
  intro below hbelow written hmem parts
  have hlt := length_text_lt_of_mem_written hmem
  rw [writtenBool, List.mem_append, List.mem_map, List.mem_singleton] at hmem
  rcases hmem with ⟨occurrence, _, rfl⟩ | rfl
  · have hlist : Decodes below (boolForm.clauses steps entry below)
        (.array ((clauses.get occurrence).map toJson)) (clauses.get occurrence) := by
      refine decodes_listForm (Nat.le_of_lt (Nat.lt_of_lt_of_le hlt hsteps)) (fun query _ => ?_)
        fun bottom hbottom => hentry bottom (by omega) occurrence
      rw [toJson]
      exact isPresent_tagged _ _
    exact hlist.map fun queries => parts.withClauses queries occurrence
  · exact (decodes_int32 clauses.minimumShouldMatch).map fun minimum => { parts with minimum }

end Records

/-! ## Queries -/

theorem find?_tag (kind : Kind) : Kind.all.find? (tag · = tag kind) = some kind := by
  cases kind <;> decide

/-- The clauses of a composition are read three levels below it. -/
theorem exists_form_eq (steps level : Nat) :
    ∃ entry, form steps level = formWith steps entry level ∧
      ∀ below, level = below + 3 → entry = form steps below := by
  match level with
  | below + 3 => exact ⟨form steps below, rfl, by rintro _ ⟨⟩; rfl⟩
  | 0 | 1 | 2 => exact ⟨_, rfl, nofun⟩

/-- A query is read back on every level. -/
theorem decodes_form {query : Query} {steps : Nat} (hsteps : query.toJson.text.length ≤ steps)
    (level : Nat) : Decodes level (form steps level) query.toJson query := by
  induction query using Query.induction_build generalizing level with
  | leaf query hkind =>
    obtain ⟨entry, hform, _⟩ := exists_form_eq steps level
    have hbody := length_text_lt_tagged (tag query.kind) query.bodyToJson
    rw [toJson] at hsteps ⊢
    rw [hform]
    refine decodes_choiceForm_tagged (by rw [find?_tag]; rfl) fun below _ => ?_
    exact decodes_bodyForm_leaf hkind (by omega)
  | build clauses ih =>
    obtain ⟨entry, hform, hentry⟩ := exists_form_eq steps level
    have hbody := length_text_lt_tagged (tag clauses.build.kind) clauses.build.bodyToJson
    have hclauses : ∀ below, level = below + 3 → ∀ occurrence, ∀ query ∈ clauses.get occurrence,
        Decodes below entry query.toJson query := by
      intro below hbelow occurrence query hmem
      have hquery := length_text_lt_of_mem_clauses hmem
      rw [hentry below hbelow]
      rw [toJson] at hsteps
      exact ih occurrence query hmem (by omega) below
    rw [toJson] at hsteps ⊢
    rw [hform]
    refine decodes_choiceForm_tagged (by rw [find?_tag]; rfl) fun below hbelow => ?_
    exact decodes_boolForm (by omega) fun bottom hbottom => hclauses bottom (by omega)

/-- A query is read from its JSON text as what it is if the brackets of the text nest at most 127
deep.  If they nest deeper, the text is refused, with a fault of its grammar. -/
theorem read_text_toJson (query : Query) :
    (query.nesting ≤ 127 → read query.toJson.text = .ok query) ∧
      (127 < query.nesting → ∃ fault, read query.toJson.text = .error fault ∧
        fault.problem = .tooDeep ∧ fault.problem.category = .grammar) := by
  have hread := readForm_text (decodes_form (Nat.le_refl query.toJson.text.length) maxNesting)
  rw [nesting_toJson] at hread
  refine ⟨hread.1, fun hdeep => ?_⟩
  obtain ⟨left, herror⟩ := hread.2 hdeep
  exact ⟨⟨.tooDeep, left⟩, herror, rfl, rfl⟩

/-- A misspelt value with a quote and a line break, in `n` compositions. -/
def wrappedFuzzy : Nat → Query
  | 0 => .fuzzy "title" "a\"b\n" (some 1)
  | n + 1 => .bool [] [] [wrappedFuzzy n] [.existing "ä"] (some (-2))

theorem nesting_wrappedFuzzy (n : Nat) : (wrappedFuzzy n).nesting = 3 * n + 2 := by
  induction n with
  | zero => rfl
  | succ n ih =>
    simp only [wrappedFuzzy, nesting, nestingAll, ih]
    omega

theorem read_text_toJson_wrappedFuzzy :
    (wrappedFuzzy 41).nesting = 125 ∧
      read (wrappedFuzzy 41).toJson.text = .ok (wrappedFuzzy 41) ∧
      (wrappedFuzzy 42).nesting = 128 ∧
      ∃ fault, read (wrappedFuzzy 42).toJson.text = .error fault ∧ fault.problem = .tooDeep := by
  have hfits := nesting_wrappedFuzzy 41
  have hdeep := nesting_wrappedFuzzy 42
  obtain ⟨fault, herror, hproblem, _⟩ := (read_text_toJson (wrappedFuzzy 42)).2 (by omega)
  exact ⟨hfits, (read_text_toJson (wrappedFuzzy 41)).1 (by omega), hdeep, fault, herror, hproblem⟩

end SearchQuery.Query
