import SearchQuery.Proofs.AcceptedDocuments
import SearchQuery.Proofs.UnreadMembers

/-!
# The first fault of a document

The reader stops at the first fault that it meets.  This module says which one that is, without the
reader's recursion.

* `visits` lists what the reader comes upon in a composition, in the order of
  `Occurrence.reading`.  `readBool_eq_error_iff` and `exists_readBool_eq_ok` say that the
  composition is read if everything in this list is, and fails as the first that is not.
* `sites` goes on to the innermost queries.  None of them is a composition that could be taken apart
  further (`compositionBody?_of_mem_sites`), so each is at fault by itself or not at all.
* `firstError_readQuery` is the result: a document is refused with the error that the first of its
  sites meets when it is read alone.
-/

namespace SearchQuery.Document

open Json

/-- Of some items that are read in turn, the first that cannot be read meets this error. -/
def FirstError (read : α → Except ε β) (items : List α) (error : ε) : Prop :=
  ∃ before item after, items = before ++ item :: after ∧
    (∀ earlier ∈ before, ∃ result, read earlier = .ok result) ∧ read item = .error error

/-! ## Compositions -/

/-- What the reader comes upon in a composition. -/
inductive Visit where
  /-- A query. -/
  | query (value : Value)
  /-- A member that should hold queries, and is neither a list nor an object. -/
  | noQueries (occurrence : Occurrence)

/-- What becomes of a visit by itself; a query is read by `entry`. -/
def Visit.read (entry : Value → Except DocumentError Query) : Visit → Except DocumentError Query
  | .query value => entry value
  | .noQueries occurrence => invalid .bool (.notQueries occurrence)

/-- What the reader comes upon in the member for one occurrence. -/
def visitsOf (occurrence : Occurrence) : Option Value → List Visit
  | none => []
  | some (.array entries) => entries.map .query
  | some (.object members) => [.query (.object members)]
  | some _ => [.noQueries occurrence]

/-- What the reader comes upon in the members of a composition, in order. -/
def visits (members : List (String × Value)) : List Visit :=
  Occurrence.reading.flatMap fun occurrence => visitsOf occurrence (members.lookup occurrence.name)

section

variable {entry : Value → Except DocumentError Query}

theorem readOccurrence_eq_mapM (occurrence : Occurrence) (value : Option Value) :
    readOccurrence entry occurrence value =
      (visitsOf occurrence value).mapM (Visit.read entry) := by
  cases value with
  | none => rfl
  | some value =>
    cases value with
    | array entries =>
      rw [readOccurrence, visitsOf, List.mapM_map]
      rfl
    | object members => simp [readOccurrence, visitsOf, Visit.read]
    | null | bool | number | string => rfl

/-- The lists are read one after another, in any order that is asked for. -/
theorem foldlM_readOccurrence_eq_error {members : List (String × Value)} {order : List Occurrence}
    {clauses : BoolClauses} {error : DocumentError} :
    (order.foldlM (fun (clauses : BoolClauses) occurrence => do
        return clauses.set occurrence
          (← readOccurrence entry occurrence (members.lookup occurrence.name))) clauses) =
        .error error ↔
      (order.flatMap fun occurrence =>
        visitsOf occurrence (members.lookup occurrence.name)).mapM (Visit.read entry) =
        .error error := by
  induction order generalizing clauses with
  | nil => simp [pure, Except.pure]
  | cons occurrence order ih =>
    rw [List.flatMap_cons, List.mapM_append, both_eq_error, ← readOccurrence_eq_mapM]
    simp only [List.foldlM_cons, bind_assoc, pure_bind, bind_eq_error, ih, exists_and_right]

theorem readBool_eq_error_iff {members : List (String × Value)} {error : DocumentError} :
    readBool entry (.object members) = .error error ↔
      FirstError (Visit.read entry) (visits members) error := by
  rw [FirstError, ← mapM_eq_error, visits, ← foldlM_readOccurrence_eq_error, readBool,
    bind_eq_error]
  refine or_iff_left ?_
  rintro ⟨clauses, _, hbuild⟩
  cases hbuild

/-- A composition is read if all that the reader comes upon is, and each clause in its place. -/
theorem exists_readBool_eq_ok {members : List (String × Value)}
    (h : ∀ visit ∈ visits members, ∃ query, visit.read entry = .ok query) :
    ∃ clauses : BoolClauses, readBool entry (.object members) = .ok clauses.build ∧
      clauses.minimumShouldMatch =
        (members.lookup "minimum_should_match" >>= minimum?) ∧
      ∀ occurrence : Occurrence, List.Forall₂ (fun value query => entry value = .ok query)
        (entries (members.lookup occurrence.name)) (clauses.get occurrence) := by
  cases hread : readBool entry (.object members) with
  | error error =>
    obtain ⟨before, visit, after, hvisits, _, herror⟩ := readBool_eq_error_iff.mp hread
    obtain ⟨query, hquery⟩ := h visit (by simp [hvisits])
    exact nomatch hquery.symm.trans herror
  | ok query =>
    obtain ⟨_, clauses, hbody, rfl, hminimum, hentries⟩ := readBool_eq_ok hread
    cases hbody
    exact ⟨clauses, rfl, hminimum, hentries⟩

/-- The number `minimum_should_match` is no part of what the reader comes upon. -/
theorem visits_put_minimum (value : Value) (members : List (String × Value)) :
    visits (put "minimum_should_match" value members) = visits members := by
  have hname (occurrence : Occurrence) : occurrence.name ≠ "minimum_should_match" := by
    cases occurrence <;> decide
  simp only [visits, lookup_put_of_ne (hname _)]

end

/-! ## Documents -/

/-- The members of the composition that a value stands for, if it does. -/
def compositionBody? : Value → Option (List (String × Value))
  | .object members =>
    match clause? members with
    | some (.bool, .object body) => some body
    | _ => none
  | _ => none

/-- A visit with the levels that are left for it. -/
structure Site where
  levels : Nat
  visit : Visit

/-- What becomes of a site that is read alone. -/
def Site.read (limit : Nat) (site : Site) : Except DocumentError Query :=
  site.visit.read (readQuery limit site.levels)

/-- Where a document can be at fault, in the order of reading: its compositions are taken apart as
far as there are levels. -/
def sites : (levels : Nat) → Value → List Site
  | 0, value => [⟨0, .query value⟩]
  | levels + 1, value =>
    match compositionBody? value with
    | some members => (visits members).flatMap fun
      | .query entry => sites levels entry
      | .noQueries occurrence => [⟨levels, .noQueries occurrence⟩]
    | none => [⟨levels + 1, .query value⟩]

theorem readQuery_of_compositionBody? {value : Value} {body : List (String × Value)}
    (h : compositionBody? value = some body) (limit levels : Nat) :
    readQuery limit (levels + 1) value = readBool (readQuery limit levels) (.object body) := by
  unfold compositionBody? at h
  split at h
  · split at h
    · next hclause =>
      cases h
      exact readQuery_object hclause limit levels
    · exact nomatch h
  · exact nomatch h

/-- A site for which a level is left is no composition with clauses to be read. -/
theorem compositionBody?_of_mem_sites {levels : Nat} {value : Value} {site : Site}
    (h : site ∈ sites levels value) {entry : Value} (hentry : site.visit = .query entry) :
    site.levels = 0 ∨ compositionBody? entry = none := by
  induction levels generalizing value with
  | zero =>
    obtain rfl := List.mem_singleton.mp h
    exact .inl rfl
  | succ levels ih =>
    rw [sites] at h
    split at h
    · obtain ⟨visit, _, hsite⟩ := List.mem_flatMap.mp h
      cases visit with
      | query value => exact ih hsite
      | noQueries occurrence =>
        obtain rfl := List.mem_singleton.mp hsite
        exact nomatch hentry
    · next hnone =>
      obtain rfl := List.mem_singleton.mp h
      cases hentry
      exact .inr hnone

theorem readQuery_eq_error_iff {limit levels : Nat} {value : Value} {error : DocumentError} :
    readQuery limit levels value = .error error ↔
      FirstError (Site.read limit) (sites levels value) error := by
  rw [FirstError, ← mapM_eq_error]
  induction levels generalizing value error with
  | zero => exact mapM_singleton_eq_error.symm
  | succ levels ih =>
    rw [sites]
    split
    · next body hbody =>
      rw [readQuery_of_compositionBody? hbody, readBool_eq_error_iff, FirstError, ← mapM_eq_error]
      refine (mapM_flatMap_eq_error fun visit error => ?_).symm
      cases visit with
      | query entry => exact ih.symm
      | noQueries occurrence => exact mapM_singleton_eq_error
    · exact mapM_singleton_eq_error.symm

/-- The first fault is the one that is reported.

A composition is read with all that the reader comes upon in it, each query by itself and in its
place, or it fails with the error of the first of these that cannot be read; what it says of
`minimum_should_match` never counts.  So a document, which may be nested to any depth, is refused
exactly with the error of the first of its sites that cannot be read alone on its own level.  No
site that has a level left is a composition that could be taken apart further. -/
theorem firstError_readQuery :
    (∀ (entry : Value → Except DocumentError Query) (members : List (String × Value)),
      ((∀ visit ∈ visits members, ∃ query, visit.read entry = .ok query) →
        ∃ clauses : BoolClauses, readBool entry (.object members) = .ok clauses.build ∧
          clauses.minimumShouldMatch =
            (members.lookup "minimum_should_match" >>= minimum?) ∧
          ∀ occurrence : Occurrence, List.Forall₂ (fun value query => entry value = .ok query)
            (entries (members.lookup occurrence.name)) (clauses.get occurrence)) ∧
      ∀ error,
        (readBool entry (.object members) = .error error ↔
          FirstError (Visit.read entry) (visits members) error) ∧
        ∀ minimum,
          readBool entry (.object (put "minimum_should_match" minimum members)) = .error error ↔
            readBool entry (.object members) = .error error) ∧
    (∀ levels value, ∀ site ∈ sites levels value, ∀ entry, site.visit = .query entry →
      site.levels = 0 ∨ compositionBody? entry = none) ∧
    (∀ limit levels value error, readQuery limit levels value = .error error ↔
      FirstError (Site.read limit) (sites levels value) error) ∧
    ∀ (config : Config) (text : String) (root : Value), text ≠ "" →
      text.utf8ByteSize ≤ config.maxInputBytes → Value.read text.toList = .ok root →
      ∀ error, parse config text = .error error ↔
        FirstError (Site.read config.maxNestingDepth)
          (sites config.maxNestingDepth (queryOf root)) error := by
  refine ⟨fun entry members => ⟨exists_readBool_eq_ok, fun error => ⟨readBool_eq_error_iff, ?_⟩⟩,
    fun levels value site hsite entry => compositionBody?_of_mem_sites hsite,
    fun limit levels value error => readQuery_eq_error_iff, ?_⟩
  · intro minimum
    rw [readBool_eq_error_iff, readBool_eq_error_iff, visits_put_minimum]
  · intro config text root hne hsize hroot error
    rw [parse_eq_readQuery hne hsize hroot]
    exact readQuery_eq_error_iff

/-- A composition with a fault of its own in one list, and a query with faults in another. -/
def faultyDocument : Value :=
  .tagged "bool" (.object
    [("minimum_should_match", .array []), ("filter", .string "x"),
      ("must", .array [.tagged "exists" (.tagged "field" (.string "a")),
        .tagged "bool" (.object [("must_not", .string "y"),
          ("should", .array [.tagged "nope" (.string "z")])])])])

theorem isWritten_faultyDocument : faultyDocument.IsWritten := by
  have hexists := ((Value.isWritten_string "a").tagged "field").tagged "exists"
  have hnope := (Value.isWritten_string "z").tagged "nope"
  have hnested : (Value.object [("must_not", .string "y"),
      ("should", .array [.tagged "nope" (.string "z")])]).IsWritten := by
    refine .object (by decide) ?_
    simp only [List.forall_mem_cons]
    refine ⟨Value.isWritten_string "y", .array ?_, nofun⟩
    exact List.forall_mem_singleton.mpr hnope
  refine .tagged (.object (by decide) ?_) "bool"
  simp only [List.forall_mem_cons]
  refine ⟨.array nofun, Value.isWritten_string "x", .array ?_, nofun⟩
  simp only [List.forall_mem_cons]
  exact ⟨hexists, hnested.tagged "bool", nofun⟩

/-- The list that is written first is read last, and `should` before `must_not`. -/
theorem firstError_readQuery_faultyDocument :
    faultyDocument.compact ≠ "" ∧ faultyDocument.compact.utf8ByteSize ≤ 102400 ∧
      Value.read faultyDocument.compact.toList = .ok faultyDocument ∧
      parse {} faultyDocument.compact = .error (.unsupported (.tagged "nope" (.string "z"))) ∧
      ⟨3, .query (.tagged "nope" (.string "z"))⟩ ∈ sites 5 faultyDocument ∧
      compositionBody? (.tagged "nope" (.string "z")) = none ∧
      ∃ clauses : BoolClauses,
        readBool (readQuery 5 1) (.object
          [("minimum_should_match", .array []),
            ("must", .tagged "exists" (.tagged "field" (.string "a")))]) = .ok clauses.build ∧
        clauses.minimumShouldMatch = none := by
  obtain ⟨hcomposition, hsites, _, hdocument⟩ := firstError_readQuery
  have hne : faultyDocument.compact ≠ "" := by decide +kernel
  have hsize : faultyDocument.compact.utf8ByteSize ≤ 102400 := by decide +kernel
  have hread : Value.read faultyDocument.compact.toList = .ok faultyDocument := by
    rw [Value.compact, String.toList_ofList]
    exact Value.read_text (isWritten_faultyDocument.of_nesting_le (by decide))
  have hsite : ⟨3, .query (.tagged "nope" (.string "z"))⟩ ∈ sites 5 faultyDocument :=
    .tail _ (.head _)
  have hfirst : FirstError (Site.read 5) (sites 5 faultyDocument)
      (.unsupported (.tagged "nope" (.string "z"))) :=
    ⟨[⟨4, .query (.tagged "exists" (.tagged "field" (.string "a")))⟩], _, _, rfl,
      List.forall_mem_singleton.mpr ⟨.existing "a", rfl⟩, rfl⟩
  refine ⟨hne, hsize, hread, (hdocument {} _ _ hne hsize hread _).mpr hfirst, hsite,
    (hsites 5 _ _ hsite _ rfl).resolve_left (by decide), ?_⟩
  obtain ⟨clauses, hclauses, hminimum, _⟩ :=
    (hcomposition (readQuery 5 1) [("minimum_should_match", .array []),
      ("must", .tagged "exists" (.tagged "field" (.string "a")))]).1
      (List.forall_mem_singleton.mpr ⟨.existing "a", rfl⟩)
  exact ⟨clauses, hclauses, hminimum⟩

end SearchQuery.Document
