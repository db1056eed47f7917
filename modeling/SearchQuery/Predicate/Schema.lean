import SearchQuery.Json.Form

/-!
# Field types

The declared types of fields.  A field without a declaration is treated like text.
-/

namespace SearchQuery

open Json

/-- The type of the values of a field. -/
inductive FieldType where
  /-- Text that is cut into words. -/
  | text
  /-- Text that is taken as a whole. -/
  | keyword
  | numeric
  | boolean
deriving DecidableEq, Repr

namespace FieldType

/-- All types. -/
def all : List FieldType :=
  [text, keyword, numeric, boolean]

/-- The name of a type. -/
def name : FieldType → String
  | text => "text"
  | keyword => "keyword"
  | numeric => "numeric"
  | boolean => "boolean"

/-- The type of a given name. -/
def ofName? (name : String) : Option FieldType :=
  all.find? (·.name = name)

/-- Takes the name of a type. -/
def form (level : Nat) : Reader FieldType :=
  choiceForm (fun name => (ofName? name).map .bare) level

end FieldType

/-- Declarations of fields, the latest first. -/
structure Schema where
  declarations : List (String × FieldType) := []
deriving Repr, Inhabited

namespace Schema

/-- The schema with one more declaration, which takes the place of an earlier one. -/
def declare (schema : Schema) (field : String) (type : FieldType) : Schema :=
  ⟨(field, type) :: schema.declarations⟩

/-- The declared type of a field. -/
def type? (schema : Schema) (field : String) : Option FieldType :=
  schema.declarations.lookup field

/-- The schema of some declarations, made in turn. -/
def ofList (declarations : List (String × FieldType)) : Schema :=
  declarations.foldl (fun schema (field, type) => schema.declare field type) {}

@[simp] theorem type?_declare_self (schema : Schema) (field : String) (type : FieldType) :
    (schema.declare field type).type? field = some type := by
  simp [declare, type?]

theorem type?_declare_of_ne (schema : Schema) {field other : String} (h : other ≠ field)
    (type : FieldType) : (schema.declare field type).type? other = schema.type? other := by
  simp [declare, type?, List.lookup_cons, beq_false_of_ne h]

/-- Reads a schema: an object from fields to the names of their types. -/
def read (text : List Char) : Except Fault Schema :=
  readForm (fun steps => mapForm steps FieldType.form declare {}) text

end Schema

end SearchQuery
