/-!
# Queries

A query is a clause: a test of one field, a test of the document's identifier, or a boolean
composition of other queries.  Values are texts throughout; numbers keep the form in which they
were written.  Nothing is checked here: fields, values and lists may be empty.
-/

namespace SearchQuery

/-- The kinds of clauses, in the order in which a document is searched for them. -/
inductive Kind where
  | bool
  | term
  | terms
  | matching
  | phrase
  | beginning
  | wildcard
  | fuzzy
  | regexp
  | existing
  | ids
  | range
deriving DecidableEq, Repr

namespace Kind

/-- All kinds, in order. -/
def all : List Kind :=
  [bool, term, terms, matching, phrase, beginning, wildcard, fuzzy, regexp, existing, ids, range]

/-- The name of a kind in documents. -/
def name : Kind → String
  | bool => "bool"
  | term => "term"
  | terms => "terms"
  | matching => "match"
  | phrase => "match_phrase"
  | beginning => "prefix"
  | wildcard => "wildcard"
  | fuzzy => "fuzzy"
  | regexp => "regexp"
  | existing => "exists"
  | ids => "ids"
  | range => "range"

theorem mem_all (kind : Kind) : kind ∈ all := by cases kind <;> decide

theorem name_injective {a b : Kind} (h : a.name = b.name) : a = b := by
  cases a <;> cases b <;> simp_all [name]

end Kind

/-! ## Ranges -/

/-- The bounds that a range can have. -/
inductive Bound where
  | gte
  | gt
  | lte
  | lt
deriving DecidableEq, Repr

namespace Bound

/-- All bounds, in the order in which they are read and written. -/
def all : List Bound :=
  [gte, gt, lte, lt]

/-- The name of a bound. -/
def name : Bound → String
  | gte => "gte"
  | gt => "gt"
  | lte => "lte"
  | lt => "lt"

theorem mem_all (bound : Bound) : bound ∈ all := by cases bound <;> decide

theorem name_injective {a b : Bound} (h : a.name = b.name) : a = b := by
  cases a <;> cases b <;> simp_all [name]

end Bound

/-- The values of a field between bounds. -/
structure Range where
  field : String
  gte : Option String := none
  gt : Option String := none
  lte : Option String := none
  lt : Option String := none
deriving DecidableEq, Repr, Inhabited

namespace Range

/-- The value of a bound. -/
def get? (range : Range) : Bound → Option String
  | .gte => range.gte
  | .gt => range.gt
  | .lte => range.lte
  | .lt => range.lt

/-- The range with a bound set to the value, in place of the value it had. -/
def set (range : Range) (bound : Bound) (value : String) : Range :=
  match bound with
  | .gte => { range with gte := some value }
  | .gt => { range with gt := some value }
  | .lte => { range with lte := some value }
  | .lt => { range with lt := some value }

/-- The range that begins without bounds and has them set in turn. -/
def ofBounds (field : String) (bounds : List (Bound × String)) : Range :=
  bounds.foldl (fun range bound => range.set bound.1 bound.2) { field }

@[simp] theorem get?_set_self (range : Range) (bound : Bound) (value : String) :
    (range.set bound value).get? bound = some value := by cases bound <;> rfl

theorem get?_set_of_ne (range : Range) {bound other : Bound} (h : other ≠ bound)
    (value : String) : (range.set bound value).get? other = range.get? other := by
  cases bound <;> cases other <;> simp_all [set, get?]

@[simp] theorem field_set (range : Range) (bound : Bound) (value : String) :
    (range.set bound value).field = range.field := by cases bound <;> rfl

end Range

/-! ## Clauses -/

/-- A query. -/
inductive Query where
  /-- The field has exactly this value. -/
  | term (field value : String)
  /-- The field has one of these values. -/
  | terms (field : String) (values : List String)
  /-- The analysed field matches the value. -/
  | matching (field value : String)
  /-- The analysed field holds the value as a phrase. -/
  | phrase (field value : String)
  /-- The field begins with the value. -/
  | beginning (field value : String)
  /-- The field matches a pattern with wildcards. -/
  | wildcard (field value : String)
  /-- The field is a few edits away from the value; without a number, as many as the default
  says. -/
  | fuzzy (field value : String) (fuzziness : Option UInt32)
  /-- The field matches a regular expression. -/
  | regexp (field value : String)
  /-- The field has a value. -/
  | existing (field : String)
  /-- The document is one of these. -/
  | ids (values : List String)
  /-- The field lies between bounds. -/
  | range (range : Range)
  /-- Every query of `must` and `filter` matches, none of `mustNot` does, and so does one of
  `should` if there are any.  `minimumShouldMatch` is kept and has no effect. -/
  | bool (must filter mustNot should : List Query) (minimumShouldMatch : Option Int32)
deriving Repr, Inhabited

namespace Query

/-- The kind of a query. -/
def kind : Query → Kind
  | term .. => .term
  | terms .. => .terms
  | matching .. => .matching
  | phrase .. => .phrase
  | beginning .. => .beginning
  | wildcard .. => .wildcard
  | fuzzy .. => .fuzzy
  | regexp .. => .regexp
  | existing .. => .existing
  | ids .. => .ids
  | range .. => .range
  | bool .. => .bool

/-- The queries that a boolean composition is made of, in the order in which they are written. -/
def clauses : Query → List Query
  | bool must filter mustNot should _ => must ++ filter ++ mustNot ++ should
  | _ => []

mutual

/-- The number of levels of a query, itself included. -/
def depth : Query → Nat
  | bool must filter mustNot should _ =>
      1 + max (max (depthAll must) (depthAll filter)) (max (depthAll mustNot) (depthAll should))
  | _ => 1

/-- The greatest depth of some queries, zero if there are none. -/
def depthAll : List Query → Nat
  | [] => 0
  | query :: rest => max query.depth (depthAll rest)

end

end Query

/-! ## Building boolean compositions -/

/-- How a clause takes part in a boolean composition. -/
inductive Occurrence where
  | must
  | filter
  | mustNot
  | should
deriving DecidableEq, Repr

namespace Occurrence

/-- All occurrences, in the order in which their clauses are written. -/
def all : List Occurrence :=
  [must, filter, mustNot, should]

/-- The name of an occurrence. -/
def name : Occurrence → String
  | must => "must"
  | filter => "filter"
  | mustNot => "must_not"
  | should => "should"

theorem mem_all (occurrence : Occurrence) : occurrence ∈ all := by cases occurrence <;> decide

theorem name_injective {a b : Occurrence} (h : a.name = b.name) : a = b := by
  cases a <;> cases b <;> simp_all [name]

theorem forall_iff {p : Occurrence → Prop} :
    (∀ occurrence, p occurrence) ↔ p must ∧ p filter ∧ p mustNot ∧ p should := by
  refine ⟨fun h => ⟨h must, h filter, h mustNot, h should⟩, ?_⟩
  rintro ⟨hmust, hfilter, hmustNot, hshould⟩ occurrence
  cases occurrence with
  | must => exact hmust
  | filter => exact hfilter
  | mustNot => exact hmustNot
  | should => exact hshould

end Occurrence

/-- A boolean composition that is being built. -/
structure BoolClauses where
  must : List Query := []
  filter : List Query := []
  mustNot : List Query := []
  should : List Query := []
  minimumShouldMatch : Option Int32 := none
deriving Repr, Inhabited

namespace BoolClauses

/-- The clauses of one occurrence. -/
def get (clauses : BoolClauses) : Occurrence → List Query
  | .must => clauses.must
  | .filter => clauses.filter
  | .mustNot => clauses.mustNot
  | .should => clauses.should

/-- The composition with other clauses of one occurrence. -/
def set (clauses : BoolClauses) (occurrence : Occurrence) (queries : List Query) : BoolClauses :=
  match occurrence with
  | .must => { clauses with must := queries }
  | .filter => { clauses with filter := queries }
  | .mustNot => { clauses with mustNot := queries }
  | .should => { clauses with should := queries }

/-- The composition with one more clause, the last of its occurrence. -/
def add (clauses : BoolClauses) (occurrence : Occurrence) (query : Query) : BoolClauses :=
  clauses.set occurrence (clauses.get occurrence ++ [query])

/-- The composition with another value of `minimum_should_match`. -/
def setMinimum (clauses : BoolClauses) (n : Int32) : BoolClauses :=
  { clauses with minimumShouldMatch := some n }

/-- The finished query. -/
def build (clauses : BoolClauses) : Query :=
  .bool clauses.must clauses.filter clauses.mustNot clauses.should clauses.minimumShouldMatch

@[simp] theorem get_set_self (clauses : BoolClauses) (occurrence : Occurrence)
    (queries : List Query) : (clauses.set occurrence queries).get occurrence = queries := by
  cases occurrence <;> rfl

theorem get_set_of_ne (clauses : BoolClauses) {occurrence other : Occurrence}
    (h : other ≠ occurrence) (queries : List Query) :
    (clauses.set occurrence queries).get other = clauses.get other := by
  cases occurrence <;> cases other <;> simp_all [set, get]

end BoolClauses

end SearchQuery
