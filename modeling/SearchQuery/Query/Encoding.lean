import SearchQuery.Json.Form
import SearchQuery.Query.Basic

/-!
# Queries as JSON

The JSON form of a query tree: an object whose one key is the tag of the clause and whose value
is the record of its parts.  `Query.toJson` writes it with the parts in a fixed order, and
`Query.read` reads it in any order, or from a list of the parts.
-/

namespace SearchQuery

open Json

/-! ## Writing -/

/-- A range, absent bounds as `null`. -/
def Range.toJson (range : Range) : Value :=
  .object (("field", .string range.field) ::
    Bound.all.map fun bound => (bound.name, .optional .string (range.get? bound)))

namespace Query

/-- A clause with a field and a value. -/
def pairToJson (field value : String) : Value :=
  .object [("field", .string field), ("value", .string value)]

/-- The tag of a kind of clause. -/
def tag : Kind → String
  | .bool => "Bool"
  | .term => "Term"
  | .terms => "Terms"
  | .matching => "Match"
  | .phrase => "MatchPhrase"
  | .beginning => "Prefix"
  | .wildcard => "Wildcard"
  | .fuzzy => "Fuzzy"
  | .regexp => "Regexp"
  | .existing => "Exists"
  | .ids => "Ids"
  | .range => "Range"

mutual

/-- The JSON form of a query. -/
def toJson (query : Query) : Value :=
  .tagged (tag query.kind) query.bodyToJson

/-- The record of the parts of a query. -/
def bodyToJson : Query → Value
  | term field value => pairToJson field value
  | terms field values => .object [("field", .string field), ("values", .strings values)]
  | matching field value => pairToJson field value
  | phrase field value => pairToJson field value
  | beginning field value => pairToJson field value
  | wildcard field value => pairToJson field value
  | fuzzy field value fuzziness =>
      .object [("field", .string field), ("value", .string value),
        ("fuzziness", .optional (fun n => .int n.toNat) fuzziness)]
  | regexp field value => pairToJson field value
  | existing field => .object [("field", .string field)]
  | ids values => .object [("values", .strings values)]
  | range bounds => bounds.toJson
  | bool must filter mustNot should minimum =>
      .object [("must", .array (allToJson must)), ("filter", .array (allToJson filter)),
        ("must_not", .array (allToJson mustNot)), ("should", .array (allToJson should)),
        ("minimum_should_match", .optional (fun n => .int n.toInt) minimum)]

/-- The JSON forms of some queries. -/
def allToJson : List Query → List Value
  | [] => []
  | query :: rest => query.toJson :: allToJson rest

end

/-! ## Reading -/

/-- A field of strings. -/
def stringField (name : String) (set : σ → String → σ) : RecordField σ :=
  .of name (fun _ => stringForm) set

/-- The parts of a clause, as far as they are read. -/
structure Parts where
  field : Option String := none
  value : Option String := none
  values : Option (List String) := none
  fuzziness : Option UInt32 := none

/-- The field of a clause. -/
def fieldPart : RecordField Parts :=
  stringField "field" fun parts field => { parts with field }

/-- The value of a clause. -/
def valuePart : RecordField Parts :=
  stringField "value" fun parts value => { parts with value }

/-- The values of a clause. -/
def valuesPart (steps : Nat) : RecordField Parts :=
  .of "values" (listForm steps fun _ => stringForm) fun parts values => { parts with values }

/-- The number of edits of a clause, which may be left out. -/
def fuzzinessPart : RecordField Parts :=
  .of "fuzziness" (fun _ => optionForm (wholeForm Number.uint32?)) fun parts fuzziness =>
    { parts with fuzziness }

/-- A clause with a field and a value. -/
def pairForm (make : String → String → Query) : RecordForm Parts Query where
  fields := [fieldPart, valuePart]
  empty := {}
  finish parts := do return make (← parts.field) (← parts.value)

/-- A set of values of a field. -/
def termsForm (steps : Nat) : RecordForm Parts Query where
  fields := [fieldPart, valuesPart steps]
  empty := {}
  finish parts := do return .terms (← parts.field) (← parts.values)

/-- A value up to a few edits. -/
def fuzzyForm : RecordForm Parts Query where
  fields := [fieldPart, valuePart, fuzzinessPart]
  empty := {}
  finish parts := do return .fuzzy (← parts.field) (← parts.value) parts.fuzziness

/-- The presence of a field. -/
def existingForm : RecordForm Parts Query where
  fields := [fieldPart]
  empty := {}
  finish parts := do return .existing (← parts.field)

/-- A set of documents. -/
def idsForm (steps : Nat) : RecordForm Parts Query where
  fields := [valuesPart steps]
  empty := {}
  finish parts := do return .ids (← parts.values)

/-- A bound of a range, which may be left out. -/
def boundPart (bound : Bound) : RecordField (Option String × Range) :=
  .of bound.name (fun _ => optionForm stringForm) fun (field, bounds) value =>
    (field, value.elim bounds (bounds.set bound))

/-- A range. -/
def rangeForm : RecordForm (Option String × Range) Query where
  fields :=
    stringField "field" (fun (_, bounds) field => (some field, bounds)) :: Bound.all.map boundPart
  empty := (none, default)
  finish := fun (field, bounds) => field.map fun field => .range { bounds with field }

/-- The clauses of a boolean composition, as far as they are read. -/
structure BoolParts where
  must : Option (List Query) := none
  filter : Option (List Query) := none
  mustNot : Option (List Query) := none
  should : Option (List Query) := none
  minimum : Option Int32 := none

/-- A boolean composition.  Its clauses are read by `entry`, whatever level they stand on. -/
def boolForm (steps : Nat) (entry : Reader Query) : RecordForm BoolParts Query where
  fields :=
    [.of "must" clauses fun parts must => { parts with must },
      .of "filter" clauses fun parts filter => { parts with filter },
      .of "must_not" clauses fun parts mustNot => { parts with mustNot },
      .of "should" clauses fun parts should => { parts with should },
      .of "minimum_should_match" (fun _ => optionForm (wholeForm Number.int32?))
        fun parts minimum => { parts with minimum }]
  empty := {}
  finish parts := do
    return .bool (← parts.must) (← parts.filter) (← parts.mustNot) (← parts.should) parts.minimum
where
  clauses : Nat → Reader (List Query) :=
    listForm steps fun _ => entry

/-- The reader of the body of a kind of clause. -/
def bodyForm (steps : Nat) (entry : Reader Query) : Kind → (level : Nat) → Reader Query
  | .bool => (boolForm steps entry).read steps
  | .term => (pairForm .term).read steps
  | .terms => (termsForm steps).read steps
  | .matching => (pairForm .matching).read steps
  | .phrase => (pairForm .phrase).read steps
  | .beginning => (pairForm .beginning).read steps
  | .wildcard => (pairForm .wildcard).read steps
  | .fuzzy => fuzzyForm.read steps
  | .regexp => (pairForm .regexp).read steps
  | .existing => existingForm.read steps
  | .ids => (idsForm steps).read steps
  | .range => rangeForm.read steps

/-- Takes a query whose clauses are read by `entry`. -/
def formWith (steps : Nat) (entry : Reader Query) (level : Nat) : Reader Query :=
  choiceForm (fun name =>
    (Kind.all.find? (tag · = name)).map fun kind => .tagged (bodyForm steps entry kind)) level

/-- Takes a query.  Its clauses stand three levels below it: in the list of an occurrence, in the
record of the composition, in the object with the tag.  Where fewer levels are left, a bracket is
too deep before any clause is reached. -/
def form (steps : Nat) : (level : Nat) → Reader Query
  | level + 3 => formWith steps (form steps level) (level + 3)
  | level => formWith steps (fun text => .error (.before .tooDeep text)) level

/-- Reads the JSON form of a query. -/
def read (text : List Char) : Except Fault Query :=
  readForm form text

end Query

end SearchQuery
