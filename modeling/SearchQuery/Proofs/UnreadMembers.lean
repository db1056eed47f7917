import Mathlib.Logic.Relation
import SearchQuery.Proofs.Depth
import SearchQuery.Proofs.DistinctKeys

/-!
# Members that are not read

What can be changed in a document without an effect on the query that is read from it.  Objects are
searched for the members that are read, so the order of members and all other members are of no
matter.  Only the field of a clause is taken from the first member, and what stands behind this is
of no matter.

* `MemberEdit` reorders the members of one object, or adds one that is not read.  It changes no
  search (`MemberEdit.lookup_eq`).  The keys of what is reordered must differ, and so they do in
  every object that is read from a text (`Value.hasDistinctKeys_of_read`).
* `Edit` is such a change at any place of a document that is read, `Edit.sameReading` that it
  changes no outcome: neither a query nor an error.
* `readQuery_eq_of_edits` says the same of any number of changes and their reversals.
-/

namespace SearchQuery

open Json

/-- The kinds that an object is searched for until this one is found, in order. -/
def Kind.upTo (kind : Kind) : List Kind :=
  Kind.all.takeWhile (· ≠ kind) ++ [kind]

namespace Document

/-! ## Changes of members -/

/-- The members are reordered, or one is added whose key is none of these. -/
inductive MemberEdit (keys : List String) :
    List (String × Value) → List (String × Value) → Prop
  | reorder {members members' : List (String × Value)} (hkeys : (members.map Prod.fst).Nodup)
      (h : members.Perm members') : MemberEdit keys members members'
  | add {key : String} (h : key ∉ keys) (value : Value) (before after : List (String × Value)) :
      MemberEdit keys (before ++ after) (before ++ (key, value) :: after)

theorem lookup_insert_of_ne {key other : String} (h : other ≠ key) (value : Value)
    (before after : List (String × Value)) :
    (before ++ (key, value) :: after).lookup other = (before ++ after).lookup other := by
  rw [List.lookup_append, List.lookup_append, List.lookup_cons, beq_false_of_ne h]

theorem lookup_insert_self {key : String} {before after : List (String × Value)}
    (h : (before ++ after).lookup key = none) (value : Value) :
    (before ++ (key, value) :: after).lookup key = some value := by
  rw [List.lookup_append, Option.or_eq_none_iff] at h
  rw [List.lookup_append, h.1, List.lookup_cons_self, Option.none_or]

theorem MemberEdit.lookup_eq {keys : List String} {members members' : List (String × Value)}
    (h : MemberEdit keys members members') :
    ∀ key ∈ keys, members.lookup key = members'.lookup key := by
  intro key hkey
  cases h with
  | reorder hkeys hperm => exact lookup_eq_of_perm hkeys hperm key
  | @add added hadded value before after =>
    have hne : key ≠ added := fun heq => hadded (heq ▸ hkey)
    exact (lookup_insert_of_ne hne value before after).symm

/-! ## The kind of a clause -/

/-- The first of some kinds that has a value is found if it has one and those before it do not. -/
theorem findSome?_eq_some_iff_takeWhile {value? : Kind → Option Value} {all : List Kind}
    {kind : Kind} {value : Value} (hmem : kind ∈ all) :
    (all.findSome? fun kind => (value? kind).map fun value => (kind, value)) = some (kind, value) ↔
      value? kind = some value ∧ ∀ other ∈ all.takeWhile (· ≠ kind), value? other = none := by
  induction all with
  | nil => exact nomatch hmem
  | cons first all ih =>
    by_cases hfirst : first = kind
    · subst hfirst
      cases hvalue : value? first with
      | none =>
        refine ⟨fun hsome => ?_, fun h => nomatch h.1⟩
        obtain ⟨other, _, hother⟩ := List.exists_of_findSome?_eq_some hsome
        obtain ⟨found, hfound, heq⟩ := Option.map_eq_some_iff.mp hother
        obtain ⟨rfl, rfl⟩ := Prod.mk.inj heq
        exact nomatch hvalue.symm.trans hfound
      | some found => simp [hvalue]
    · have hall : kind ∈ all := (List.mem_cons.mp hmem).resolve_left (Ne.symm hfirst)
      cases hvalue : value? first with
      | none => simp [hvalue, hfirst, ih hall]
      | some found => simp [hvalue, hfirst]

/-- A clause is found if there is a member for it and none for the kinds before it. -/
theorem clause?_eq_some_iff {members : List (String × Value)} {kind : Kind} {body : Value} :
    clause? members = some (kind, body) ↔
      members.lookup kind.name = some body ∧
        ∀ other ∈ Kind.all.takeWhile (· ≠ kind), members.lookup other.name = none :=
  findSome?_eq_some_iff_takeWhile kind.mem_all

theorem clause?_congr {members members' : List (String × Value)} {kind : Kind} {body : Value}
    (h : ∀ key ∈ kind.upTo.map Kind.name, members.lookup key = members'.lookup key)
    (hclause : clause? members = some (kind, body)) : clause? members' = some (kind, body) := by
  rw [clause?_eq_some_iff] at hclause ⊢
  rw [List.forall_mem_map] at h
  refine ⟨?_, fun other hother => ?_⟩
  · rw [← h kind (List.mem_append_right _ (List.mem_singleton_self kind))]
    exact hclause.1
  · rw [← h other (List.mem_append_left _ hother)]
    exact hclause.2 other hother

/-- Another body in place of the body of the clause is the body that is found. -/
theorem clause?_put {members : List (String × Value)} {kind : Kind} {body : Value}
    (hclause : clause? members = some (kind, body)) (body' : Value) :
    clause? (put kind.name body' members) = some (kind, body') := by
  rw [clause?_eq_some_iff] at hclause ⊢
  refine ⟨lookup_put_self kind.name body' members, fun other hother => ?_⟩
  have hne : other ≠ kind := of_decide_eq_true (List.all_eq_true.mp List.all_takeWhile other hother)
  rw [lookup_put_of_ne fun heq => hne (Kind.name_injective heq)]
  exact hclause.2 other hother

theorem readQuery_object {members : List (String × Value)} {kind : Kind} {body : Value}
    (hclause : clause? members = some (kind, body)) (limit levels : Nat) :
    readQuery limit (levels + 1) (.object members) =
      readClause (readQuery limit levels) body kind := by
  rw [readQuery, readWith, hclause]

/-! ## Changes of documents -/

/-- The members that the body of a clause is searched for.  Where there are none, the body is read
by its first member. -/
def bodyKeys : Kind → Option (List String)
  | .bool => some ("minimum_should_match" :: Occurrence.all.map Occurrence.name)
  | .existing => some ["field"]
  | .ids => some ["values"]
  | _ => none

/-- The members that are searched for in the object behind the field of a clause. -/
def fieldKeys : Kind → Option (List String)
  | .term | .beginning | .wildcard | .regexp => some ["value"]
  | .matching | .phrase => some ["query"]
  | .fuzzy => some ["value", "fuzziness"]
  | .range => some (Bound.all.map Bound.name)
  | _ => none

/-- What a value of a document stands for. -/
inductive Place where
  /-- A query. -/
  | query
  /-- The clauses of one occurrence. -/
  | clauses
  /-- The body of a clause. -/
  | body (kind : Kind)

/-- One change in a value that stands for this, at any place inside that is read. -/
inductive Edit : Place → Value → Value → Prop
  /-- Of the members of a query, only the clause counts and that there is none before it. -/
  | members {members members' : List (String × Value)} {kind : Kind} {body : Value}
      (hclause : clause? members = some (kind, body))
      (h : MemberEdit (kind.upTo.map Kind.name) members members') :
      Edit .query (.object members) (.object members')
  | clause {members : List (String × Value)} {kind : Kind} {body body' : Value}
      (hclause : clause? members = some (kind, body)) (h : Edit (.body kind) body body') :
      Edit .query (.object members) (.object (put kind.name body' members))
  | bodyMembers {kind : Kind} {keys : List String} {members members' : List (String × Value)}
      (hkeys : bodyKeys kind = some keys) (h : MemberEdit keys members members') :
      Edit (.body kind) (.object members) (.object members')
  | fieldMembers {kind : Kind} {keys : List String} {members members' : List (String × Value)}
      (hkeys : fieldKeys kind = some keys) (h : MemberEdit keys members members')
      (field : String) (rest : List (String × Value)) :
      Edit (.body kind) (.object ((field, .object members) :: rest))
        (.object ((field, .object members') :: rest))
  /-- Behind the first member, the body of a clause of one field may say anything. -/
  | behind {kind : Kind} (hkeys : bodyKeys kind = none) (first : String × Value)
      (rest rest' : List (String × Value)) :
      Edit (.body kind) (.object (first :: rest)) (.object (first :: rest'))
  | occurrence {members : List (String × Value)} {occurrence : Occurrence} {value value' : Value}
      (hvalue : members.lookup occurrence.name = some value) (h : Edit .clauses value value') :
      Edit (.body .bool) (.object members) (.object (put occurrence.name value' members))
  | entry {entry entry' : Value} (h : Edit .query entry entry') (before after : List Value) :
      Edit .clauses (.array (before ++ entry :: after)) (.array (before ++ entry' :: after))
  | single {entry entry' : Value} (h : Edit .query entry entry') : Edit .clauses entry entry'

/-- Both values are read alike, wherever they stand in place of each other. -/
def SameReading : Place → Value → Value → Prop
  | .query, v, w => ∀ limit levels, readQuery limit levels v = readQuery limit levels w
  | .clauses, v, w => ∀ limit levels occurrence,
      readOccurrence (readQuery limit levels) occurrence (some v) =
        readOccurrence (readQuery limit levels) occurrence (some w)
  | .body kind, v, w => ∀ limit levels,
      readClause (readQuery limit levels) v kind = readClause (readQuery limit levels) w kind

/-! ## Reading what is changed -/

section Clauses

variable {entry : Value → Except DocumentError Query} {members members' : List (String × Value)}

theorem readBool_congr
    (h : ∀ occurrence : Occurrence,
      readOccurrence entry occurrence (members.lookup occurrence.name) =
        readOccurrence entry occurrence (members'.lookup occurrence.name))
    (hminimum : members.lookup "minimum_should_match" = members'.lookup "minimum_should_match") :
    readBool entry (.object members) = readBool entry (.object members') := by
  simp only [readBool, Occurrence.reading, List.foldlM_cons, List.foldlM_nil, h, hminimum]

/-- A body that is searched for its members is read by what is found. -/
theorem readClause_bodyMembers {kind : Kind} {keys : List String}
    (hkeys : bodyKeys kind = some keys)
    (h : ∀ key ∈ keys, members.lookup key = members'.lookup key) :
    readClause entry (.object members) kind = readClause entry (.object members') kind := by
  cases kind with
  | bool =>
    obtain rfl := Option.some.inj hkeys
    rw [List.forall_mem_cons, List.forall_mem_map] at h
    exact readBool_congr (fun occurrence => by rw [h.2 occurrence occurrence.mem_all]) h.1
  | existing =>
    obtain rfl := Option.some.inj hkeys
    rw [readClause, readClause, readExisting, readExisting, Value.member?, Value.member?,
      h "field" (.head _)]
  | ids =>
    obtain rfl := Option.some.inj hkeys
    rw [readClause, readClause, readIds, readIds, Value.member?, Value.member?,
      h "values" (.head _)]
  | _ => simp [bodyKeys] at hkeys

/-- What follows on the first member of a clause's body may read another value behind the field, if
it makes the same of it. -/
theorem firstField_bind_congr {α : Type} {next : String × Value → Except DocumentError α}
    {field : String} {value value' : Value} (h : next (field, value) = next (field, value'))
    (kind : Kind) (rest : List (String × Value)) :
    (firstField kind (.object ((field, value) :: rest)) >>= next) =
      (firstField kind (.object ((field, value') :: rest)) >>= next) := by
  by_cases hfield : field = ""
  · simp only [firstField, if_pos hfield]
  · simpa only [firstField, if_neg hfield, ok_bind] using h

theorem fieldAndValue_congr {kind : Kind} {key : String}
    (h : members.lookup key = members'.lookup key) (field : String)
    (rest : List (String × Value)) :
    fieldAndValue kind key (.object ((field, .object members) :: rest)) =
      fieldAndValue kind key (.object ((field, .object members') :: rest)) := by
  apply firstField_bind_congr
  simp only [h]

/-- A range is read by its bounds. -/
theorem readRange_congr (h : ∀ bound, bound? members bound = bound? members' bound)
    (field : String) (rest : List (String × Value)) :
    readRange (.object ((field, .object members) :: rest)) =
      readRange (.object ((field, .object members') :: rest)) := by
  apply firstField_bind_congr
  simp only [h]

/-- An object that says something of a field is read by what is found. -/
theorem readClause_fieldMembers {kind : Kind} {keys : List String}
    (hkeys : fieldKeys kind = some keys)
    (h : ∀ key ∈ keys, members.lookup key = members'.lookup key) (field : String)
    (rest : List (String × Value)) :
    readClause entry (.object ((field, .object members) :: rest)) kind =
      readClause entry (.object ((field, .object members') :: rest)) kind := by
  cases kind with
  | bool | terms | existing | ids => exact nomatch hkeys
  | term | matching | phrase | beginning | wildcard | regexp =>
    obtain rfl := Option.some.inj hkeys
    simp only [readClause, readPair, fieldAndValue_congr (h _ (.head _)) field rest]
  | fuzzy =>
    obtain rfl := Option.some.inj hkeys
    simp only [readClause, readFuzzy, readFuzzy.fuzziness?,
      fieldAndValue_congr (h "value" (.head _)) field rest, h "fuzziness" (.tail _ (.head _))]
  | range =>
    obtain rfl := Option.some.inj hkeys
    rw [List.forall_mem_map] at h
    have hbound (bound : Bound) : bound? members bound = bound? members' bound := by
      rw [bound?, bound?, h bound bound.mem_all]
    exact readRange_congr hbound field rest

/-- A clause of one field is read by the first member. -/
theorem readClause_behind {kind : Kind} (hkeys : bodyKeys kind = none) (first : String × Value)
    (rest rest' : List (String × Value)) :
    readClause entry (.object (first :: rest)) kind =
      readClause entry (.object (first :: rest')) kind := by
  cases kind with
  | bool | existing | ids => exact nomatch hkeys
  | fuzzy =>
    obtain ⟨field, value⟩ := first
    cases value <;> rfl
  | _ => rfl

end Clauses

/-! ## Values that are read alike -/

namespace SameReading

theorem clause {members : List (String × Value)} {kind : Kind} {body body' : Value}
    (hclause : clause? members = some (kind, body)) (h : SameReading (.body kind) body body') :
    SameReading .query (.object members) (.object (put kind.name body' members)) := by
  rintro limit (_ | levels)
  · rfl
  · rw [readQuery_object hclause, readQuery_object (clause?_put hclause _)]
    exact h limit levels

theorem occurrence {members : List (String × Value)} {changed : Occurrence} {value value' : Value}
    (hvalue : members.lookup changed.name = some value) (h : SameReading .clauses value value') :
    SameReading (.body .bool) (.object members) (.object (put changed.name value' members)) := by
  intro limit levels
  refine readBool_congr (fun occurrence => ?_) ?_
  · by_cases heq : occurrence = changed
    · subst heq
      rw [hvalue, lookup_put_self]
      exact h limit levels occurrence
    · rw [lookup_put_of_ne fun hname => heq (Occurrence.name_injective hname)]
  · rw [lookup_put_of_ne (by cases changed <;> decide)]

theorem entry {entry entry' : Value} (h : SameReading .query entry entry')
    (before after : List Value) :
    SameReading .clauses (.array (before ++ entry :: after))
      (.array (before ++ entry' :: after)) := by
  intro limit levels occurrence
  have hentry : readQuery limit levels entry = readQuery limit levels entry' := h limit levels
  simp only [readOccurrence, List.mapM_append, List.mapM_cons, hentry]

theorem single {members members' : List (String × Value)}
    (h : SameReading .query (.object members) (.object members')) :
    SameReading .clauses (.object members) (.object members') := by
  intro limit levels occurrence
  rw [readOccurrence, readOccurrence, h limit levels]

end SameReading

theorem Edit.exists_eq_object {v w : Value} (h : Edit .query v w) :
    ∃ members members', v = .object members ∧ w = .object members' := by
  cases h with
  | members _ _ => exact ⟨_, _, rfl, rfl⟩
  | clause _ _ => exact ⟨_, _, rfl, rfl⟩

theorem Edit.sameReading {place : Place} {v w : Value} (h : Edit place v w) :
    SameReading place v w := by
  induction h with
  | members hclause h =>
    rintro limit (_ | levels)
    · rfl
    · rw [readQuery_object hclause, readQuery_object (clause?_congr h.lookup_eq hclause)]
  | clause hclause _ ih => exact .clause hclause ih
  | bodyMembers hkeys h => exact fun limit levels => readClause_bodyMembers hkeys h.lookup_eq
  | fieldMembers hkeys h field rest =>
    exact fun limit levels => readClause_fieldMembers hkeys h.lookup_eq field rest
  | behind hkeys first rest rest' =>
    exact fun limit levels => readClause_behind hkeys first rest rest'
  | occurrence hvalue _ ih => exact .occurrence hvalue ih
  | entry _ before after ih => exact .entry ih before after
  | single h ih =>
    obtain ⟨members, members', rfl, rfl⟩ := h.exists_eq_object
    exact .single ih

/-- Any number of changes of what is not read, and of reversals of such changes, leave the outcome
as it is under every limit: the same query is read, or the same error is met. -/
theorem readQuery_eq_of_edits {v w : Value} (h : Relation.EqvGen (Edit .query) v w)
    (limit levels : Nat) : readQuery limit levels v = readQuery limit levels w := by
  induction h with
  | rel v w h => exact h.sameReading limit levels
  | refl v => rfl
  | symm v w _ ih => exact ih.symm
  | trans u v w _ _ huv hvw => exact huv.trans hvw

/-- The body of a composition with further members, and more than a value said of a field. -/
def annotatedBody (inside ofField : List (String × Value)) : Value :=
  .object (inside ++
    [("must", .array
      [.object [("term", .object [("a", .object (ofField ++ [("value", .string "x")]))])]])])

theorem readQuery_annotatedBody :
    Relation.EqvGen (Edit .query) (.object [("bool", annotatedBody [] [])])
        (.object [("bool", annotatedBody [("boost", .null)] [("boost", .bool true)]),
          ("term", .null)]) ∧
      ∀ limit levels, readQuery limit levels (.object [("bool", annotatedBody [] [])]) =
        readQuery limit levels
          (.object [("bool", annotatedBody [("boost", .null)] [("boost", .bool true)]),
            ("term", .null)]) := by
  have hterm : Edit .query
      (.object [("term", .object [("a", .object [("value", .string "x")])])])
      (.object [("term", .object
        [("a", .object [("boost", .bool true), ("value", .string "x")])])]) :=
    @Edit.clause _ .term _ _ rfl (.fieldMembers rfl (.add (by decide) (.bool true) [] _) "a" [])
  have hfield : Edit .query (.object [("bool", annotatedBody [] [])])
      (.object [("bool", annotatedBody [] [("boost", .bool true)])]) :=
    @Edit.clause _ .bool _ _ rfl (@Edit.occurrence _ .must _ _ rfl (.entry hterm [] []))
  have hinside : Edit .query (.object [("bool", annotatedBody [] [("boost", .bool true)])])
      (.object [("bool", annotatedBody [("boost", .null)] [("boost", .bool true)])]) :=
    @Edit.clause _ .bool _ _ rfl (.bodyMembers rfl (.add (by decide) .null [] _))
  have hadded (body : Value) : Edit .query (.object [("bool", body)])
      (.object [("term", .null), ("bool", body)]) :=
    @Edit.members _ _ .bool _ rfl (.add (by decide) .null [] _)
  have hreordered (body : Value) : Edit .query (.object [("term", .null), ("bool", body)])
      (.object [("bool", body), ("term", .null)]) :=
    @Edit.members _ _ .bool _ rfl
      (.reorder (show ["term", "bool"].Nodup by decide) (.swap _ _ []))
  have hedits := ((Relation.EqvGen.rel _ _ hfield).trans _ _ _ (.rel _ _ hinside)).trans _ _ _
    ((Relation.EqvGen.rel _ _ (hadded _)).trans _ _ _ (.rel _ _ (hreordered _)))
  exact ⟨hedits, readQuery_eq_of_edits hedits⟩

end Document

end SearchQuery
