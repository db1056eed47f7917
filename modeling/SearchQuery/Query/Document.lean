import SearchQuery.Json.Document
import SearchQuery.Query.Emission

/-!
# Query documents

Reading a query from a JSON document.  The root of the document is the query, or an object with
the query as its member `query`.  Every query is an object; of the members named after kinds of
clauses the one whose kind comes first in `Kind.all` counts, and all others are ignored.

A document is refused by the first of these that applies: it is empty, it is too long, it is no
JSON, or one of its queries is nested too deep or has no such member or a malformed one.  The
queries are read one after another, those of a composition in the order of `Occurrence.reading`.
-/

namespace SearchQuery

open Json

/-! ## Errors -/

/-- What is wrong with the body of a clause. -/
inductive ClauseProblem where
  | notObject
  | notQueries (occurrence : Occurrence)
  | noField
  | emptyField
  | notScalar (value : Value)
  | missing (key field : String)
  | notValues
  | emptyValues
  | noFieldName
  | noValues
  | noBounds (field : String)

/-- The wording of what is wrong with a clause. -/
def ClauseProblem.message : ClauseProblem → String
  | notObject => "expected an object"
  | notQueries occurrence => "'" ++ occurrence.name ++ "' must be an array of queries"
  | noField => "expected a field name"
  | emptyField => "field name cannot be empty"
  | notScalar value => "expected a scalar value, got " ++ value.compact
  | missing key field => "missing '" ++ key ++ "' for field '" ++ field ++ "'"
  | notValues => "expected an array of values"
  | emptyValues => "value list cannot be empty"
  | noFieldName => "expected a 'field' string"
  | noValues => "expected a 'values' array"
  | noBounds field => "expected bounds object for field '" ++ field ++ "'"

/-- Why a document is refused. -/
inductive DocumentError where
  | empty
  | tooLong (limit : Nat)
  | malformed (problem : Problem) (position : Position)
  | tooDeep (limit : Nat)
  | unsupported (value : Value)
  | invalidClause (kind : Kind) (problem : ClauseProblem)

namespace DocumentError

/-- A short label of the cause. -/
def reason : DocumentError → String
  | empty | tooLong _ => "validation"
  | malformed .. => "format"
  | tooDeep _ => "too_deep"
  | unsupported _ => "unsupported_query"
  | invalidClause .. => "invalid_clause"

/-- What distinguishes the error from others with the same cause. -/
def detail : DocumentError → String
  | empty => "JSON input cannot be empty"
  | tooLong limit =>
      "JSON input exceeds the maximum size limit of " ++ toString (limit / 1024) ++ "KB"
  | malformed problem position =>
      problem.message ++ " at line " ++ toString position.line
        ++ " column " ++ toString position.column
  | tooDeep limit => toString limit
  | unsupported value => value.compact
  | invalidClause _ problem => problem.message

/-- The wording of an error. -/
def message (error : DocumentError) : String :=
  (match error with
    | empty | tooLong _ => "Invalid input: "
    | malformed .. => "Invalid JSON format: "
    | tooDeep _ => "Query nesting exceeds the maximum depth of "
    | unsupported _ => "Query type not supported or invalid structure: "
    | invalidClause kind _ => "Invalid '" ++ kind.name ++ "' clause: ") ++ error.detail

end DocumentError

/-- The order in which the clauses of a composition are read. -/
def Occurrence.reading : List Occurrence :=
  [.must, .should, .mustNot, .filter]

namespace Document

/-- A clause of the given kind is malformed. -/
def invalid (kind : Kind) (problem : ClauseProblem) : Except DocumentError α :=
  .error (.invalidClause kind problem)

/-! ## Parts of clauses -/

/-- The first member of the body of a clause: a field and what is said of it. -/
def firstField (kind : Kind) : Value → Except DocumentError (String × Value)
  | .object [] => invalid kind .noField
  | .object ((field, value) :: _) =>
      if field = "" then invalid kind .emptyField else .ok (field, value)
  | _ => invalid kind .notObject

/-- The text of a scalar: a string as it is, a number or truth value as it is written. -/
def scalarText (kind : Kind) : Value → Except DocumentError String
  | .string value => .ok value
  | .number text => .ok text
  | .bool value => .ok (String.ofList (boolText value))
  | value => invalid kind (.notScalar value)

/-- The texts of one or more scalars. -/
def scalarTexts (kind : Kind) (values : List Value) : Except DocumentError (List String) := do
  let texts ← values.mapM (scalarText kind)
  if texts = [] then invalid kind .emptyValues else return texts

/-- A field with a value in short form, `{"field": value}`, or in long form, with the value as
the member `key` of an object. -/
def fieldAndValue (kind : Kind) (key : String) (body : Value) :
    Except DocumentError (String × String) := do
  let (field, value) ← firstField kind body
  match value with
  | .object members =>
      match members.lookup key with
      | some value => return (field, ← scalarText kind value)
      | none => invalid kind (.missing key field)
  | value => return (field, ← scalarText kind value)

/-- A number given as a number or as a string with blanks about it, each with its own way to be
read.  Everything else counts as absent. -/
def lenientNumber? (ofNumber? ofString? : List Char → Option α) : Value → Option α
  | .number text => ofNumber? text.toList
  | .string value => ofString? (Text.trim value.toList)
  | _ => none

/-- The number of alternatives that must hold.  A number is read into 64 bits and then narrowed, a
string is read into 32 bits at once. -/
def minimum? : Value → Option Int32 :=
  lenientNumber? (fun text => Number.readInt64? text >>= fun n => Number.int32? n.toInt)
    Number.readInt32?

/-- The number of edits that may be made.  It is read as a minimum is, but has no sign. -/
def edits? : Value → Option UInt32 :=
  lenientNumber? (fun text => Number.readUInt64? text >>= fun n => Number.uint32? n.toNat)
    Number.readUInt32?

/-- A bound of a range; `null` counts as absent. -/
def bound? (members : List (String × Value)) (bound : Bound) :
    Except DocumentError (Option String) :=
  match members.lookup bound.name with
  | none | some .null => .ok none
  | some value => (scalarText .range value).map some

/-! ## Clauses -/

/-- A clause of a field and a value. -/
def readPair (kind : Kind) (key : String) (make : String → String → Query) (body : Value) :
    Except DocumentError Query := do
  let (field, value) ← fieldAndValue kind key body
  return make field value

/-- A set of values of a field. -/
def readTerms (body : Value) : Except DocumentError Query := do
  let (field, values) ← firstField .terms body
  match values with
  | .array values => return .terms field (← scalarTexts .terms values)
  | _ => invalid .terms .notValues

/-- A value up to a few edits.  Only the long form can say how many. -/
def readFuzzy (body : Value) : Except DocumentError Query := do
  let (field, value) ← fieldAndValue .fuzzy "value" body
  return .fuzzy field value (fuzziness? body)
where
  fuzziness? : Value → Option UInt32
    | .object ((_, .object members) :: _) =>
        members.lookup "fuzziness" >>= edits?
    | _ => none

/-- The presence of a field. -/
def readExisting (body : Value) : Except DocumentError Query :=
  match body.member? "field" with
  | some (.string field) =>
      if field = "" then invalid .existing .emptyField else .ok (.existing field)
  | _ => invalid .existing .noFieldName

/-- A set of documents. -/
def readIds (body : Value) : Except DocumentError Query :=
  match body.member? "values" with
  | some (.array values) => (scalarTexts .ids values).map .ids
  | _ => invalid .ids .noValues

/-- A range. -/
def readRange (body : Value) : Except DocumentError Query := do
  let (field, bounds) ← firstField .range body
  match bounds with
  | .object members =>
      let gte ← bound? members .gte
      let gt ← bound? members .gt
      let lte ← bound? members .lte
      let lt ← bound? members .lt
      return .range { field, gte, gt, lte, lt }
  | _ => invalid .range (.noBounds field)

/-! ## Boolean compositions -/

/-- The clauses of one occurrence: a list of queries, or a single one. -/
def readOccurrence (entry : Value → Except DocumentError Query) (occurrence : Occurrence) :
    Option Value → Except DocumentError (List Query)
  | none => .ok []
  | some (.array entries) => entries.mapM entry
  | some (.object members) => do return [← entry (.object members)]
  | some _ => invalid .bool (.notQueries occurrence)

/-- A boolean composition whose clauses are read by `entry`. -/
def readBool (entry : Value → Except DocumentError Query) : Value → Except DocumentError Query
  | .object members => do
      let clauses ← Occurrence.reading.foldlM (fun (clauses : BoolClauses) occurrence => do
        return clauses.set occurrence
          (← readOccurrence entry occurrence (members.lookup occurrence.name))) {}
      let minimum := members.lookup "minimum_should_match" >>= minimum?
      return { clauses with minimumShouldMatch := minimum }.build
  | _ => invalid .bool .notObject

/-! ## Queries -/

/-- The first kind of clause that an object has a member for, and that member. -/
def clause? (members : List (String × Value)) : Option (Kind × Value) :=
  Kind.all.findSome? fun kind => (members.lookup kind.name).map fun body => (kind, body)

/-- A clause of the given kind; the clauses of a composition are read by `entry`. -/
def readClause (entry : Value → Except DocumentError Query) (body : Value) :
    Kind → Except DocumentError Query
  | .bool => readBool entry body
  | .term => readPair .term "value" .term body
  | .terms => readTerms body
  | .matching => readPair .matching "query" .matching body
  | .phrase => readPair .phrase "query" .phrase body
  | .beginning => readPair .beginning "value" .beginning body
  | .wildcard => readPair .wildcard "value" .wildcard body
  | .fuzzy => readFuzzy body
  | .regexp => readPair .regexp "value" .regexp body
  | .existing => readExisting body
  | .ids => readIds body
  | .range => readRange body

/-- A query whose clauses, if it is a composition, are read by `entry`. -/
def readWith (entry : Value → Except DocumentError Query) (value : Value) :
    Except DocumentError Query :=
  match value with
  | .object members =>
      match clause? members with
      | some (kind, body) => readClause entry body kind
      | none => .error (.unsupported value)
  | _ => .error (.unsupported value)

/-- A query that may have `levels` levels; `limit` is the number that the whole document may
have. -/
def readQuery (limit : Nat) : (levels : Nat) → Value → Except DocumentError Query
  | 0 => fun _ => .error (.tooDeep limit)
  | levels + 1 => readWith (readQuery limit levels)

/-- The query of a document: the member `query` of the root if it has one, else the root. -/
def queryOf (root : Value) : Value :=
  (root.member? "query").getD root

/-- Reads a document. -/
def parse (config : Config) (text : String) : Except DocumentError Query :=
  if text = "" then .error .empty
  else if config.maxInputBytes < text.utf8ByteSize then .error (.tooLong config.maxInputBytes)
  else
    match Value.read text.toList with
    | .error fault => .error (.malformed fault.problem (fault.position text.toList))
    | .ok root => readQuery config.maxNestingDepth config.maxNestingDepth (queryOf root)

/-- The query string of a document. -/
def translate (config : Config) (text : String) : Except DocumentError String :=
  (parse config text).map (Query.emitWith config.defaultFuzziness)

end Document

end SearchQuery
