import SearchQuery.Proofs.Outcome
import SearchQuery.Query.Document

/-!
# The depth guard

The reader counts levels from the root down and stops at the first query that is too deep, while
`Query.depth` counts them from the leaves up.  This module relates the outcomes of one document
under two limits.

* `Cut` says what a smaller limit makes of an outcome.  It composes along the reader:
  `Cut.bind`, `Cut.mapM`, `Cut.readOccurrence`, `Cut.readBool`.
* `Cut.readWith` is one level of the reader, and `Cut.readQuery` all levels.
* `readQuery_limit` is the result: the limit decides between acceptance and refusal by the depth
  of the query alone, and changes nothing else.
-/

namespace SearchQuery

theorem Query.depth_pos (query : Query) : 0 < query.depth := by
  cases query with
  | bool must filter mustNot should minimum =>
    rw [depth]
    omega
  | _ => exact Nat.one_pos

/-- Every clause but a composition has one level. -/
theorem Query.depth_of_kind_ne {query : Query} (hkind : query.kind ≠ .bool) : query.depth = 1 := by
  cases query with
  | bool => exact absurd rfl hkind
  | _ => rfl

theorem Query.depthAll_le {queries : List Query} {levels : Nat} :
    depthAll queries ≤ levels ↔ ∀ query ∈ queries, query.depth ≤ levels := by
  induction queries with
  | nil => simp [depthAll]
  | cons query rest ih => rw [depthAll, Nat.max_le, ih, List.forall_mem_cons]

namespace Document

open Json

/-! ## Outcomes under two limits -/

/-- The outcome under a greater limit, and what a smaller one makes of it.  A result stays if it
fits and is refused otherwise; an error stays unless something too deep was met before it. -/
inductive Cut (limit : Nat) (fits : α → Prop) :
    Except DocumentError α → Except DocumentError α → Prop where
  | kept (a : α) (hfits : fits a) : Cut limit fits (.ok a) (.ok a)
  | refused (a : α) (hfits : ¬fits a) : Cut limit fits (.ok a) (.error (.tooDeep limit))
  | failed (error : DocumentError) : Cut limit fits (.error error) (.error error)
  | refusedFirst (error : DocumentError) :
      Cut limit fits (.error error) (.error (.tooDeep limit))

namespace Cut

/-- An outcome that needs no level is the same under both limits. -/
theorem same {limit : Nat} {fits : α → Prop} {outcome : Except DocumentError α}
    (hfits : ∀ a, outcome = .ok a → fits a) : Cut limit fits outcome outcome := by
  cases outcome with
  | ok a => exact .kept a (hfits a rfl)
  | error error => exact .failed error

/-- Unless it is refused, a document is read under both limits alike. -/
theorem eq_of_ne_tooDeep {limit : Nat} {fits : α → Prop} {deep shallow : Except DocumentError α}
    (h : Cut limit fits deep shallow) (hne : ∀ n, shallow ≠ .error (.tooDeep n)) :
    deep = shallow := by
  cases h with
  | kept | failed => rfl
  | refused | refusedFirst => exact absurd rfl (hne limit)

theorem eq_ok {limit : Nat} {fits : α → Prop} {shallow : Except DocumentError α} {a : α}
    (h : Cut limit fits (.ok a) shallow) (hfits : fits a) : shallow = .ok a := by
  cases h with
  | kept => rfl
  | refused _ hnot => exact absurd hfits hnot

theorem eq_tooDeep {limit : Nat} {fits : α → Prop} {shallow : Except DocumentError α} {a : α}
    (h : Cut limit fits (.ok a) shallow) (hnot : ¬fits a) :
    shallow = .error (.tooDeep limit) := by
  cases h with
  | kept _ hfits => exact absurd hfits hnot
  | refused => rfl

/-- One reading after another.  What is made of a part that does not fit does not fit either. -/
theorem bind {limit : Nat} {fits : α → Prop} {fits' : β → Prop}
    {deep shallow : Except DocumentError α} {next next' : α → Except DocumentError β}
    (h : Cut limit fits deep shallow)
    (hnext : ∀ a, fits a → Cut limit fits' (next a) (next' a))
    (hpart : ∀ a b, next a = .ok b → fits' b → fits a) :
    Cut limit fits' (deep >>= next) (shallow >>= next') := by
  cases h with
  | kept a hfits => exact hnext a hfits
  | refused a hfits =>
    change Cut limit fits' (next a) (.error (.tooDeep limit))
    cases hb : next a with
    | ok b => exact .refused b fun hfits' => hfits (hpart a b hb hfits')
    | error error => exact .refusedFirst error
  | failed error => exact .failed error
  | refusedFirst error => exact .refusedFirst error

section

variable {limit levels : Nat} {deep shallow : Value → Except DocumentError Query}
  (hentry : ∀ value, Cut limit (fun query => query.depth ≤ levels) (deep value) (shallow value))

include hentry

/-- The entries of a list are read one after another. -/
theorem mapM (entries : List Value) :
    Cut limit (fun queries => Query.depthAll queries ≤ levels)
      (entries.mapM deep) (entries.mapM shallow) := by
  induction entries with
  | nil => exact .kept [] (Nat.zero_le levels)
  | cons entry rest ih =>
    simp only [List.mapM_cons]
    refine (hentry entry).bind (fun query hquery => ih.bind (fun queries hqueries => ?_) ?_) ?_
    · exact .kept (query :: queries) (Nat.max_le.mpr ⟨hquery, hqueries⟩)
    · rintro queries all ⟨⟩ hall
      exact (Nat.max_le.mp hall).2
    · intro query all hok hall
      obtain ⟨queries, _, ⟨⟩⟩ := bind_eq_ok.mp hok
      exact (Nat.max_le.mp hall).1

theorem readOccurrence (occurrence : Occurrence) (value : Option Value) :
    Cut limit (fun queries => Query.depthAll queries ≤ levels)
      (Document.readOccurrence deep occurrence value)
      (Document.readOccurrence shallow occurrence value) := by
  unfold Document.readOccurrence
  split
  · exact .kept [] (Nat.zero_le levels)
  · exact mapM hentry _
  · rename_i members
    refine (hentry (.object members)).bind (fun query hquery => .kept [query] ?_) ?_
    · simpa [Query.depthAll] using hquery
    · rintro query all ⟨⟩ hall
      simpa [Query.depthAll] using hall
  · exact .failed _

end

end Cut

/-! ## Reading a boolean composition -/

/-- The four lists are read in the order of `Occurrence.reading`. -/
theorem readBool_object (entry : Value → Except DocumentError Query)
    (members : List (String × Value)) :
    readBool entry (.object members) = do
      let must ← readOccurrence entry .must (members.lookup "must")
      let should ← readOccurrence entry .should (members.lookup "should")
      let mustNot ← readOccurrence entry .mustNot (members.lookup "must_not")
      let filter ← readOccurrence entry .filter (members.lookup "filter")
      let minimum := members.lookup "minimum_should_match" >>= minimum?
      return .bool must filter mustNot should minimum := by
  simp only [readBool, Occurrence.reading, List.foldlM_cons, List.foldlM_nil, bind_assoc,
    pure_bind, Occurrence.name]
  rfl

/-- A composition fits into one level more than its clauses. -/
theorem depth_bool_le {must filter mustNot should : List Query} {minimum : Option Int32}
    {levels : Nat} :
    (Query.bool must filter mustNot should minimum).depth ≤ levels + 1 ↔
      (Query.depthAll must ≤ levels ∧ Query.depthAll filter ≤ levels) ∧
        Query.depthAll mustNot ≤ levels ∧ Query.depthAll should ≤ levels := by
  rw [Query.depth, Nat.add_comm 1, Nat.add_le_add_iff_right]
  simp only [Nat.max_le]

theorem Cut.readBool {limit levels : Nat} {deep shallow : Value → Except DocumentError Query}
    (hentry : ∀ value, Cut limit (fun query => query.depth ≤ levels) (deep value) (shallow value))
    (body : Value) :
    Cut limit (fun query => query.depth ≤ levels + 1)
      (Document.readBool deep body) (Document.readBool shallow body) := by
  cases body with
  | object members =>
    rw [readBool_object, readBool_object]
    -- Each list is read once the lists before it fit; a part of a result that fits fits itself.
    refine (readOccurrence hentry _ _).bind (fun must hmust => ?_) ?_
    · refine (readOccurrence hentry _ _).bind (fun should hshould => ?_) ?_
      · refine (readOccurrence hentry _ _).bind (fun mustNot hmustNot => ?_) ?_
        · refine (readOccurrence hentry _ _).bind (fun filter hfilter => ?_) ?_
          · exact .kept _ (depth_bool_le.mpr ⟨⟨hmust, hfilter⟩, hmustNot, hshould⟩)
          · rintro filter query ⟨⟩ hquery
            exact (depth_bool_le.mp hquery).1.2
        · intro mustNot query hok hquery
          obtain ⟨filter, _, ⟨⟩⟩ := bind_eq_ok.mp hok
          exact (depth_bool_le.mp hquery).2.1
      · intro should query hok hquery
        obtain ⟨mustNot, _, hok⟩ := bind_eq_ok.mp hok
        obtain ⟨filter, _, ⟨⟩⟩ := bind_eq_ok.mp hok
        exact (depth_bool_le.mp hquery).2.2
    · intro must query hok hquery
      obtain ⟨should, _, hok⟩ := bind_eq_ok.mp hok
      obtain ⟨mustNot, _, hok⟩ := bind_eq_ok.mp hok
      obtain ⟨filter, _, ⟨⟩⟩ := bind_eq_ok.mp hok
      exact (depth_bool_le.mp hquery).1.1
  | _ => exact .failed _

/-! ## Reading a query -/

theorem kind_of_readPair {kind : Kind} {key : String} {make : String → String → Query}
    {body : Value} {query : Query} (hmake : ∀ field value, (make field value).kind = kind)
    (hok : readPair kind key make body = .ok query) : query.kind = kind := by
  obtain ⟨⟨field, value⟩, _, ⟨⟩⟩ := bind_eq_ok.mp hok
  exact hmake field value

/-- The member of a document that names a kind is read as a clause of that kind. -/
theorem kind_of_readClause {entry : Value → Except DocumentError Query} {body : Value}
    {kind : Kind} {query : Query} (hok : readClause entry body kind = .ok query) :
    query.kind = kind := by
  cases kind with
  | bool =>
    cases body with
    | object members =>
      obtain ⟨clauses, _, ⟨⟩⟩ := bind_eq_ok.mp hok
      rfl
    | _ => exact nomatch hok
  | term | matching | phrase | beginning | wildcard | regexp =>
    exact kind_of_readPair (fun _ _ => rfl) hok
  | terms =>
    obtain ⟨⟨field, values⟩, _, hok⟩ := bind_eq_ok.mp hok
    cases values with
    | array values =>
      obtain ⟨texts, _, ⟨⟩⟩ := bind_eq_ok.mp hok
      rfl
    | _ => exact nomatch hok
  | fuzzy =>
    obtain ⟨⟨field, value⟩, _, ⟨⟩⟩ := bind_eq_ok.mp hok
    rfl
  | existing =>
    simp only [readClause, readExisting] at hok
    split at hok
    · split at hok
      · exact nomatch hok
      · cases hok
        rfl
    · exact nomatch hok
  | ids =>
    simp only [readClause, readIds] at hok
    split at hok
    · obtain ⟨texts, _, rfl⟩ := map_eq_ok.mp hok
      rfl
    · exact nomatch hok
  | range =>
    obtain ⟨⟨field, bounds⟩, _, hok⟩ := bind_eq_ok.mp hok
    cases bounds with
    | object members =>
      obtain ⟨gte, _, hok⟩ := bind_eq_ok.mp hok
      obtain ⟨gt, _, hok⟩ := bind_eq_ok.mp hok
      obtain ⟨lte, _, hok⟩ := bind_eq_ok.mp hok
      obtain ⟨lt, _, ⟨⟩⟩ := bind_eq_ok.mp hok
      rfl
    | _ => exact nomatch hok

/-- Only compositions have clauses that are read by `entry`. -/
theorem readClause_eq_of_kind_ne (entry entry' : Value → Except DocumentError Query) (body : Value)
    {kind : Kind} (hkind : kind ≠ .bool) :
    readClause entry body kind = readClause entry' body kind := by
  cases kind with
  | bool => exact absurd rfl hkind
  | _ => rfl

/-- One level of the reader: what is cut below it is cut at it. -/
theorem Cut.readWith {limit levels : Nat} {deep shallow : Value → Except DocumentError Query}
    (hentry : ∀ value, Cut limit (fun query => query.depth ≤ levels) (deep value) (shallow value))
    (value : Value) :
    Cut limit (fun query => query.depth ≤ levels + 1)
      (Document.readWith deep value) (Document.readWith shallow value) := by
  unfold Document.readWith
  split
  · split
    · rename_i kind body _
      by_cases hkind : kind = .bool
      · subst hkind
        exact readBool hentry body
      · rw [readClause_eq_of_kind_ne deep shallow body hkind]
        refine same fun query hok => ?_
        rw [Query.depth_of_kind_ne (kind_of_readClause hok ▸ hkind)]
        exact Nat.le_add_left 1 levels
    · exact .failed _
  · exact .failed _

/-- The whole reader, with any number of levels above those of the smaller limit. -/
theorem Cut.readQuery {limit limit' levels levels' : Nat} (hle : levels ≤ levels')
    (value : Value) :
    Cut limit (fun query => query.depth ≤ levels)
      (Document.readQuery limit' levels' value) (Document.readQuery limit levels value) := by
  induction levels generalizing levels' value with
  | zero =>
    change Cut limit _ (Document.readQuery limit' levels' value) (.error (.tooDeep limit))
    cases hdeep : Document.readQuery limit' levels' value with
    | ok query => exact .refused query (Nat.not_le.mpr query.depth_pos)
    | error error => exact .refusedFirst error
  | succ levels ih =>
    obtain ⟨levels', rfl⟩ := Nat.exists_eq_add_one.mpr (Nat.lt_of_lt_of_le (Nat.succ_pos _) hle)
    exact readWith (fun value => ih (Nat.le_of_succ_le_succ hle) value) value

/-! ## The limit -/

/-- Reading under two limits.  An outcome that is no refusal under the smaller limit is the
outcome under the greater one.  What is accepted under the greater limit is accepted under the
smaller one exactly if its depth allows it, and refused for its depth otherwise.  So whatever is
accepted is no deeper than the limit. -/
theorem readQuery_limit {limit limit' : Nat} (hle : limit ≤ limit') (value : Value) :
    ((∀ n, readQuery limit limit value ≠ .error (.tooDeep n)) →
      readQuery limit' limit' value = readQuery limit limit value) ∧
    (∀ query, readQuery limit' limit' value = .ok query →
      (query.depth ≤ limit → readQuery limit limit value = .ok query) ∧
      (limit < query.depth → readQuery limit limit value = .error (.tooDeep limit))) ∧
    (∀ query, readQuery limit' limit' value = .ok query → query.depth ≤ limit') := by
  have hcut : Cut limit (fun query => query.depth ≤ limit)
      (readQuery limit' limit' value) (readQuery limit limit value) :=
    Cut.readQuery hle value
  have hself : Cut limit' (fun query => query.depth ≤ limit')
      (readQuery limit' limit' value) (readQuery limit' limit' value) :=
    Cut.readQuery (Nat.le_refl limit') value
  refine ⟨hcut.eq_of_ne_tooDeep, fun query hok => ?_, fun query hok => ?_⟩
  · rw [hok] at hcut
    exact ⟨hcut.eq_ok, fun hdeep => hcut.eq_tooDeep (Nat.not_le.mpr hdeep)⟩
  · refine Nat.not_lt.mp fun hlt => ?_
    have hdeep : ¬query.depth ≤ limit' := Nat.not_le.mpr hlt
    rw [hok] at hself
    exact nomatch hself.eq_tooDeep hdeep

/-- A composition with one clause, which has two levels. -/
def nestedBody : Value :=
  .object [("bool", .object [("must", .object [("exists", .object [("field", .string "a")])])])]

theorem readQuery_limit_nestedBody :
    1 ≤ 2 ∧ readQuery 2 2 nestedBody = .ok (.bool [.existing "a"] [] [] [] none) ∧
      readQuery 1 1 nestedBody = .error (.tooDeep 1) ∧
      readQuery 3 3 nestedBody = readQuery 2 2 nestedBody := by
  have hok : readQuery 2 2 nestedBody = .ok (.bool [.existing "a"] [] [] [] none) := by rfl
  refine ⟨by decide, hok, ?_, ?_⟩
  · exact ((readQuery_limit (by decide : 1 ≤ 2) nestedBody).2.1 _ hok).2 (by decide)
  · exact (readQuery_limit (by decide : 2 ≤ 3) nestedBody).1 (by rw [hok]; nofun)

end Document

end SearchQuery
