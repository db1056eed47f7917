import SearchQuery.Proofs.UnreadMembers

/-!
# Spellings of a query

A document can say the same in several ways: one clause by itself or in a list, no clauses or an
empty list of them, a value directly behind its field or as a member of an object, a number or the
string of its text, no bound or `null`.

* `Respelling` is one change from one way to the other, at any place of a document that is read.
* `Respelling.sameReading` says that it changes no outcome: neither a query nor an error.  Most
  cases say which part of the reader sees the change: `readOccurrence_listed`,
  `fieldAndValue_long`, `scalarText_string_compact`, `bound?_congr`.
* `readQuery_eq_of_respellings` says the same of any number of changes and their reversals.
-/

namespace SearchQuery

open Json

/-- Whether a value is a scalar that stands without quotes: a number or a word of truth. -/
def Json.Value.isUnquoted : Value → Bool
  | .number _ | .bool _ => true
  | _ => false

/-- The key of the value in the long form of a clause of one field, if the clause has one. -/
def Kind.longKey? : Kind → Option String
  | .term | .beginning | .wildcard | .fuzzy | .regexp => some "value"
  | .matching | .phrase => some "query"
  | _ => none

namespace Document

/-! ## Changes of spelling -/

/-- One change of the spelling of a value that stands for this, at any place inside that is read. -/
inductive Respelling : Place → Value → Value → Prop
  /-- A single query may as well be a list of one. -/
  | listed (members : List (String × Value)) :
      Respelling .clauses (.object members) (.array [.object members])
  /-- An occurrence without clauses may as well have an empty list of them. -/
  | noClauses {occurrence : Occurrence} {before after : List (String × Value)}
      (h : (before ++ after).lookup occurrence.name = none) :
      Respelling (.body .bool) (.object (before ++ after))
        (.object (before ++ (occurrence.name, .array []) :: after))
  /-- What stands behind a field, unless it is an object, may as well be a member of one. -/
  | long {kind : Kind} {key : String} (hkey : kind.longKey? = some key) {value : Value}
      (hvalue : ∀ members, value ≠ .object members) (field : String)
      (rest : List (String × Value)) :
      Respelling (.body kind) (.object ((field, value) :: rest))
        (.object ((field, .object [(key, value)]) :: rest))
  | shortValue {kind : Kind} {key : String} (hkey : kind.longKey? = some key) {value : Value}
      (hvalue : value.isUnquoted = true) (field : String) (rest : List (String × Value)) :
      Respelling (.body kind) (.object ((field, value) :: rest))
        (.object ((field, .string value.compact) :: rest))
  | longValue {kind : Kind} {key : String} (hkey : kind.longKey? = some key)
      {members : List (String × Value)} {value : Value} (hmember : members.lookup key = some value)
      (hvalue : value.isUnquoted = true) (field : String) (rest : List (String × Value)) :
      Respelling (.body kind) (.object ((field, .object members) :: rest))
        (.object ((field, .object (put key (.string value.compact) members)) :: rest))
  | termsElement {value : Value} (hvalue : value.isUnquoted = true) (field : String)
      (before after : List Value) (rest : List (String × Value)) :
      Respelling (.body .terms) (.object ((field, .array (before ++ value :: after)) :: rest))
        (.object ((field, .array (before ++ .string value.compact :: after)) :: rest))
  | idsElement {members : List (String × Value)} {before after : List Value} {value : Value}
      (hmember : members.lookup "values" = some (.array (before ++ value :: after)))
      (hvalue : value.isUnquoted = true) :
      Respelling (.body .ids) (.object members)
        (.object (put "values" (.array (before ++ .string value.compact :: after)) members))
  | bound {bound : Bound} {members : List (String × Value)} {value : Value}
      (hmember : members.lookup bound.name = some value) (hvalue : value.isUnquoted = true)
      (field : String) (rest : List (String × Value)) :
      Respelling (.body .range) (.object ((field, .object members) :: rest))
        (.object ((field, .object (put bound.name (.string value.compact) members)) :: rest))
  /-- A bound that is absent may as well be `null`. -/
  | noBound {bound : Bound} {before after : List (String × Value)}
      (h : (before ++ after).lookup bound.name = none) (field : String)
      (rest : List (String × Value)) :
      Respelling (.body .range) (.object ((field, .object (before ++ after)) :: rest))
        (.object ((field, .object (before ++ (bound.name, .null) :: after)) :: rest))
  | clause {members : List (String × Value)} {kind : Kind} {body body' : Value}
      (hclause : clause? members = some (kind, body)) (h : Respelling (.body kind) body body') :
      Respelling .query (.object members) (.object (put kind.name body' members))
  | occurrence {members : List (String × Value)} {occurrence : Occurrence} {value value' : Value}
      (hvalue : members.lookup occurrence.name = some value)
      (h : Respelling .clauses value value') :
      Respelling (.body .bool) (.object members) (.object (put occurrence.name value' members))
  | entry {entry entry' : Value} (h : Respelling .query entry entry')
      (before after : List Value) :
      Respelling .clauses (.array (before ++ entry :: after))
        (.array (before ++ entry' :: after))
  | single {entry entry' : Value} (h : Respelling .query entry entry') :
      Respelling .clauses entry entry'

/-! ## Scalars -/

/-- A number or a word of truth is read like the string of its text. -/
theorem scalarText_string_compact {value : Value} (h : value.isUnquoted = true) (kind : Kind) :
    scalarText kind (.string value.compact) = scalarText kind value := by
  cases value with
  | number text => simp [scalarText, Value.compact, Value.text]
  | bool value => simp [scalarText, Value.compact, Value.text]
  | null | string | array | object => simp [Value.isUnquoted] at h

theorem scalarTexts_string_compact {value : Value} (h : value.isUnquoted = true) (kind : Kind)
    (before after : List Value) :
    scalarTexts kind (before ++ .string value.compact :: after) =
      scalarTexts kind (before ++ value :: after) := by
  simp only [scalarTexts, List.mapM_append, List.mapM_cons, scalarText_string_compact h]

/-! ## Values of a field -/

section Values

variable {kind : Kind} {key : String} {members : List (String × Value)} {value : Value}

/-- What stands directly behind a field is its value. -/
theorem fieldAndValue_short (hvalue : ∀ members, value ≠ .object members) (field : String)
    (rest : List (String × Value)) :
    fieldAndValue kind key (.object ((field, value) :: rest)) =
      if field = "" then invalid kind .emptyField
      else do return (field, ← scalarText kind value) := by
  by_cases hfield : field = ""
  · simp only [fieldAndValue, firstField, if_pos hfield]
    rfl
  · simp only [fieldAndValue, firstField, if_neg hfield, ok_bind]

/-- The value of a field may stand in an object behind it. -/
theorem fieldAndValue_long (hmember : members.lookup key = some value) (field : String)
    (rest : List (String × Value)) :
    fieldAndValue kind key (.object ((field, .object members) :: rest)) =
      if field = "" then invalid kind .emptyField
      else do return (field, ← scalarText kind value) := by
  by_cases hfield : field = ""
  · simp only [fieldAndValue, firstField, if_pos hfield]
    rfl
  · simp only [fieldAndValue, firstField, if_neg hfield, ok_bind, hmember]

/-- A clause with a long form is read by its field and value, and by its number of edits. -/
theorem readClause_congr {entry : Value → Except DocumentError Query}
    (hkey : kind.longKey? = some key) {body body' : Value}
    (h : fieldAndValue kind key body = fieldAndValue kind key body')
    (hfuzziness : readFuzzy.fuzziness? body = readFuzzy.fuzziness? body') :
    readClause entry body kind = readClause entry body' kind := by
  cases kind with
  | term | matching | phrase | beginning | wildcard | regexp =>
    obtain rfl := Option.some.inj hkey
    simp only [readClause, readPair, h]
  | fuzzy =>
    obtain rfl := Option.some.inj hkey
    simp only [readClause, readFuzzy, h, hfuzziness]
  | bool | terms | existing | ids | range => cases hkey

theorem ne_fuzziness_of_longKey? (h : kind.longKey? = some key) : "fuzziness" ≠ key := by
  cases kind with
  | term | matching | phrase | beginning | wildcard | fuzzy | regexp =>
    obtain rfl := Option.some.inj h
    decide
  | bool | terms | existing | ids | range => cases h

/-- A value in short form says nothing of edits. -/
theorem fuzziness?_short (hvalue : ∀ members, value ≠ .object members) (field : String)
    (rest : List (String × Value)) :
    readFuzzy.fuzziness? (.object ((field, value) :: rest)) = none := by
  cases value with
  | object members => exact absurd rfl (hvalue members)
  | null | bool | number | string | array => rfl

theorem ne_object_of_isUnquoted (h : value.isUnquoted = true) (members : List (String × Value)) :
    value ≠ .object members := by
  rintro rfl
  simp [Value.isUnquoted] at h

theorem readTerms_congr {values values' : List Value}
    (h : scalarTexts .terms values = scalarTexts .terms values') (field : String)
    (rest : List (String × Value)) :
    readTerms (.object ((field, .array values) :: rest)) =
      readTerms (.object ((field, .array values') :: rest)) := by
  apply firstField_bind_congr
  simp only [h]

end Values

/-! ## Bounds -/

/-- An absent bound and `null` are read alike. -/
theorem bound?_null {members : List (String × Value)} {bound : Bound}
    (h : members.lookup bound.name = some .null ∨ members.lookup bound.name = none) :
    bound? members bound = .ok none := by
  rcases h with h | h
  · rw [bound?, h]
  · rw [bound?, h]

theorem bound?_string_compact {members members' : List (String × Value)} {bound : Bound}
    {value : Value} (hvalue : value.isUnquoted = true)
    (h : members.lookup bound.name = some value)
    (h' : members'.lookup bound.name = some (.string value.compact)) :
    bound? members bound = bound? members' bound := by
  have htext := scalarText_string_compact hvalue .range
  rw [bound?, bound?, h, h']
  cases value with
  | number text => simp only [htext]
  | bool value => simp only [htext]
  | null | string | array | object => simp [Value.isUnquoted] at hvalue

/-! ## Reading what is respelled -/

theorem Respelling.exists_eq_object {v w : Value} (h : Respelling .query v w) :
    ∃ members members', v = .object members ∧ w = .object members' := by
  cases h with
  | clause _ _ => exact ⟨_, _, rfl, rfl⟩

theorem Respelling.sameReading {place : Place} {v w : Value} (h : Respelling place v w) :
    SameReading place v w := by
  induction h with
  | listed members =>
    intro limit levels occurrence
    simp [readOccurrence]
  | @noClauses changed before after h =>
    intro limit levels
    apply readBool_congr
    · intro occurrence
      by_cases heq : occurrence = changed
      · subst heq
        rw [h, lookup_insert_self h]
        rfl
      · have hname : occurrence.name ≠ changed.name :=
          fun hname => heq (Occurrence.name_injective hname)
        rw [lookup_insert_of_ne hname]
    · have hname : "minimum_should_match" ≠ changed.name := by cases changed <;> decide
      rw [lookup_insert_of_ne hname]
  | @long kind key hkey value hvalue field rest =>
    intro limit levels
    apply readClause_congr hkey
    · rw [fieldAndValue_short hvalue, fieldAndValue_long List.lookup_cons_self]
    · have hnone : [(key, value)].lookup "fuzziness" = none := by
        rw [List.lookup_cons, beq_false_of_ne (ne_fuzziness_of_longKey? hkey)]
        rfl
      rw [fuzziness?_short hvalue, readFuzzy.fuzziness?, hnone]
      rfl
  | @shortValue kind key hkey value hvalue field rest =>
    intro limit levels
    have hobject := ne_object_of_isUnquoted hvalue
    have hstring : ∀ members, Value.string value.compact ≠ .object members := by
      simp
    apply readClause_congr hkey
    · rw [fieldAndValue_short hobject, fieldAndValue_short hstring,
        scalarText_string_compact hvalue]
    · rw [fuzziness?_short hobject, fuzziness?_short hstring]
  | longValue hkey hmember hvalue field rest =>
    intro limit levels
    apply readClause_congr hkey
    · rw [fieldAndValue_long hmember, fieldAndValue_long (lookup_put_self _ _ _),
        scalarText_string_compact hvalue]
    · rw [readFuzzy.fuzziness?, readFuzzy.fuzziness?,
        lookup_put_of_ne (ne_fuzziness_of_longKey? hkey)]
  | termsElement hvalue field before after rest =>
    intro limit levels
    apply readTerms_congr
    rw [scalarTexts_string_compact hvalue]
  | idsElement hmember hvalue =>
    intro limit levels
    simp only [readClause, readIds, Value.member?, hmember, lookup_put_self,
      scalarTexts_string_compact hvalue]
  | @bound changed members value hmember hvalue field rest =>
    intro limit levels
    refine readRange_congr (fun bound => ?_) field rest
    by_cases heq : bound = changed
    · subst heq
      exact bound?_string_compact hvalue hmember (lookup_put_self _ _ _)
    · have hname : bound.name ≠ changed.name := fun hname => heq (Bound.name_injective hname)
      rw [bound?, bound?, lookup_put_of_ne hname]
  | @noBound changed before after h field rest =>
    intro limit levels
    refine readRange_congr (fun bound => ?_) field rest
    by_cases heq : bound = changed
    · subst heq
      rw [bound?_null (.inr h), bound?_null (.inl (lookup_insert_self h _))]
    · have hname : bound.name ≠ changed.name := fun hname => heq (Bound.name_injective hname)
      rw [bound?, bound?, lookup_insert_of_ne hname]
  | clause hclause _ ih => exact .clause hclause ih
  | occurrence hvalue _ ih => exact .occurrence hvalue ih
  | entry _ before after ih => exact .entry ih before after
  | single h ih =>
    obtain ⟨members, members', rfl, rfl⟩ := h.exists_eq_object
    exact .single ih

/-- Any number of changes of spelling, and of reversals of such changes, leave the outcome as it is
under every limit: the same query is read, or the same error is met. -/
theorem readQuery_eq_of_respellings {v w : Value} (h : Relation.EqvGen (Respelling .query) v w)
    (limit levels : Nat) : readQuery limit levels v = readQuery limit levels w := by
  have hstep : ∀ v w, Respelling .query v w →
      readQuery limit levels v = readQuery limit levels w :=
    fun v w h => h.sameReading limit levels
  exact congrArg (Quot.lift (readQuery limit levels) hstep) (Quot.eqvGen_sound h)

/-- A composition with one clause, spelled as briefly as it can be. -/
def briefBody : Value :=
  .object [("must", .object [("term", .object [("n", .number "5")])])]

/-- The same with everything written out, up to the value that is said of the field. -/
def fullBody (ofField : Value) : Value :=
  .object [("must", .array [.object [("term", .object [("n", ofField)])]]), ("should", .array [])]

theorem readQuery_fullBody :
    Relation.EqvGen (Respelling .query) (.object [("bool", briefBody)])
        (.object [("bool", fullBody (.object [("value", .string "5")]))]) ∧
      ∀ limit levels, readQuery limit levels (.object [("bool", briefBody)]) =
        readQuery limit levels
          (.object [("bool", fullBody (.object [("value", .string "5")]))]) := by
  have hlisted : Respelling .query (.object [("bool", briefBody)])
      (.object [("bool", .object
        [("must", .array [.object [("term", .object [("n", .number "5")])]])])]) :=
    @Respelling.clause _ .bool _ _ rfl (@Respelling.occurrence _ .must _ _ rfl (.listed _))
  have hempty : Respelling .query
      (.object [("bool", .object
        [("must", .array [.object [("term", .object [("n", .number "5")])]])])])
      (.object [("bool", fullBody (.number "5"))]) :=
    @Respelling.clause _ .bool _ _ rfl (@Respelling.noClauses .should [_] [] rfl)
  have hvalue {v w : Value}
      (h : Respelling (.body .term) (.object [("n", v)]) (.object [("n", w)])) :
      Respelling .query (.object [("bool", fullBody v)]) (.object [("bool", fullBody w)]) :=
    @Respelling.clause _ .bool _ _ rfl
      (@Respelling.occurrence _ .must _ _ rfl (.entry (@Respelling.clause _ .term _ _ rfl h) [] []))
  have hlong : Respelling (.body .term) (.object [("n", .number "5")])
      (.object [("n", .object [("value", .number "5")])]) :=
    @Respelling.long .term "value" rfl (.number "5") nofun "n" []
  have hquoted : Respelling (.body .term) (.object [("n", .object [("value", .number "5")])])
      (.object [("n", .object [("value", .string "5")])]) :=
    @Respelling.longValue .term "value" rfl _ (.number "5") rfl rfl "n" []
  have hspellings := ((Relation.EqvGen.rel _ _ hlisted).trans _ _ _ (.rel _ _ hempty)).trans _ _ _
    ((Relation.EqvGen.rel _ _ (hvalue hlong)).trans _ _ _ (.rel _ _ (hvalue hquoted)))
  exact ⟨hspellings, readQuery_eq_of_respellings hspellings⟩

end Document

end SearchQuery
