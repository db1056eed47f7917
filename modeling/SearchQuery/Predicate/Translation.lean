import SearchQuery.Predicate.Expr
import SearchQuery.Predicate.Schema
import SearchQuery.Number.Decimal
import SearchQuery.Query.Emission

/-!
# Predicates as query strings

```text
f == v                field:value
f != v                NOT (field:value)
f > v                 field:{value TO *]
f >= v                field:[value TO *]
f < v                 field:[* TO value}
f <= v                field:[* TO value]
a && b                (a) AND (b)
a || b                (a) OR (b)
f.contains(v)         field:*value*
f.starts_with(v)      field:value*
f.ends_with(v)        field:*value
```

A comparison has a field on one side and a constant, or a variable that has one, on the other.
Values are escaped, unless the field is declared numeric or boolean: then they are checked
against the type and stand in one form.
-/

namespace SearchQuery

open Text

/-! ## Errors -/

/-- What cannot be translated. -/
inductive Unsupported where
  | binary (op : BinaryOp)
  | unary (op : UnaryOp)
  | asPredicate (expr : Expr)
  | twoFields (op : BinaryOp)
  | noField (op : BinaryOp)
  | receiver (method : Method)
  | arity (method : Method) (count : Nat)
  | fragmentArguments
  | unknownMethod (name : String)

/-- The wording of what cannot be translated. -/
def Unsupported.message : Unsupported → String
  | binary op => "binary operator '" ++ op.name ++ "'"
  | unary op => "unary operator '" ++ op.name ++ "'"
  | asPredicate expr => expr.describe ++ " used as a predicate"
  | twoFields op => "'" ++ op.name ++ "' between two fields"
  | noField op => "'" ++ op.name ++ "' without a field operand"
  | receiver method => "method '" ++ method.name ++ "' requires a field receiver"
  | arity method count =>
      "method '" ++ method.name ++ "' expects 1 argument, got " ++ toString count
  | fragmentArguments => "'" ++ Method.fragment.name ++ "' expects (field, query) arguments"
  | unknownMethod name => "method '" ++ name ++ "'"

/-- Why a predicate is not translated. -/
inductive PredicateError where
  | unsupported (what : Unsupported)
  | unbound (operand : Expr)
  | typeMismatch (field : String) (declared : FieldType) (value : Literal)

namespace PredicateError

/-- A short label of the cause. -/
def reason : PredicateError → String
  | unsupported _ => "unsupported_operation"
  | unbound _ => "unbound_value"
  | typeMismatch .. => "type_mismatch"

/-- The wording of an error. -/
def message : PredicateError → String
  | unsupported what => "Operation not supported: " ++ what.message
  | unbound operand => "Cannot resolve value for " ++ operand.describe
  | typeMismatch field declared value =>
      "Field '" ++ field ++ "' is declared " ++ declared.name ++ ", got '"
        ++ String.ofList value.display ++ "'"

end PredicateError

/-- What a translation looks up: the types of fields and the values of variables. -/
structure Scope where
  fieldType : String → Option FieldType
  resolve : String → Option Literal

namespace Scope

/-! ## Values -/

/-- The constant that an operand stands for. -/
def value (scope : Scope) : Expr → Except PredicateError Literal
  | .literal value => .ok value
  | .var name =>
      match scope.resolve name with
      | some value => .ok value
      | none => .error (.unbound (.var name))
  | operand => .error (.unbound operand)

/-- The text of a constant on a numeric field: a number as it is, a text that is one without the
blanks about it. -/
def numericText? : Literal → Option (List Char)
  | .integer value => some (Number.intText value.toInt)
  | .float value => if value.isFinite then some (Literal.float value).display else none
  | .text value =>
      let text := trim value.toList
      if Number.isFiniteDecimal text then some text else none
  | _ => none

/-- The text of a constant on a boolean field, in small letters. -/
def booleanText? : Literal → Option (List Char)
  | .bool value => some (Json.boolText value)
  | .text value =>
      let text := value.toList.map Char.toLower
      if text = Json.boolText true ∨ text = Json.boolText false then some text else none
  | _ => none

/-- The text of a constant on a field of no particular type. -/
def plainText (value : Literal) : List Char :=
  if value = .null then value.display else escape value.display

/-- The text of a constant that a field is compared with. -/
def valueText (scope : Scope) (field : String) (value : Literal) :
    Except PredicateError (List Char) :=
  match scope.fieldType field with
  | some .numeric => orMismatch .numeric (numericText? value)
  | some .boolean => orMismatch .boolean (booleanText? value)
  | _ => .ok (plainText value)
where
  orMismatch (declared : FieldType) : Option (List Char) → Except PredicateError (List Char)
    | some text => .ok text
    | none => .error (.typeMismatch field declared value)

/-! ## Comparisons -/

/-- The field of a comparison, the other operand, and the operator as seen from the field. -/
def orient (op : BinaryOp) : (left right : Expr) → Except PredicateError (String × Expr × BinaryOp)
  | .field _, .field _ => .error (.unsupported (.twoFields op))
  | .field field, value => .ok (field, value, op)
  | value, .field field => .ok (field, value, op.converse)
  | _, _ => .error (.unsupported (.noField op))

/-- The values on the field's side of an ordering.  Only the orderings are asked for; the last
case is that of `lessThanOrEqual`. -/
def orderingInterval (op : BinaryOp) (value : List Char) : List Char :=
  match op with
  | .greaterThan => interval '{' value ['*'] ']'
  | .greaterThanOrEqual => interval '[' value ['*'] ']'
  | .lessThan => interval '[' ['*'] value '}'
  | _ => interval '[' ['*'] value ']'

/-- A comparison, with what the field is required to be made of the operator and the value. -/
def comparison (scope : Scope) (require : BinaryOp → List Char → List Char) (op : BinaryOp)
    (left right : Expr) : Except PredicateError (List Char) := do
  let (field, operand, op) ← orient op left right
  let text ← scope.valueText field (← scope.value operand)
  return onField field (require op text)

/-- An equality. -/
def equality (scope : Scope) (op : BinaryOp) (left right : Expr) :
    Except PredicateError (List Char) :=
  scope.comparison (fun _ text => text) op left right

/-- An ordering. -/
def ordering (scope : Scope) (op : BinaryOp) (left right : Expr) :
    Except PredicateError (List Char) :=
  scope.comparison orderingInterval op left right

/-! ## Calls -/

/-- A call of a method of a field with one argument; `pattern` makes a pattern of the value. -/
def fieldCall (scope : Scope) (method : Method) (pattern : List Char → List Char)
    (receiver : Option Expr) (arguments : List Expr) : Except PredicateError (List Char) :=
  match receiver with
  | some (.field field) =>
      match arguments with
      | [argument] => do
          return onField field (pattern (escape (← scope.value argument).display))
      | _ => .error (.unsupported (.arity method arguments.length))
  | _ => .error (.unsupported (.receiver method))

/-- A field and a fragment, which is taken as it stands. -/
def fragmentCall (scope : Scope) (receiver : Option Expr) (arguments : List Expr) :
    Except PredicateError (List Char) :=
  match receiver, arguments with
  | none, [.field field, fragment] => do
      return onField field (parenthesized (← scope.value fragment).display)
  | _, _ => .error (.unsupported .fragmentArguments)

/-- A call. -/
def call (scope : Scope) (name : String) (receiver : Option Expr) (arguments : List Expr) :
    Except PredicateError (List Char) :=
  match Method.ofName? name with
  | some .contains =>
      scope.fieldCall .contains (fun value => '*' :: (value ++ ['*'])) receiver arguments
  | some .startsWith => scope.fieldCall .startsWith (· ++ ['*']) receiver arguments
  | some .endsWith => scope.fieldCall .endsWith ('*' :: ·) receiver arguments
  | some .fragment => scope.fragmentCall receiver arguments
  | none => .error (.unsupported (.unknownMethod name))

end Scope

/-! ## Predicates -/

/-- Two query strings that must both match. -/
def conjunction (left right : List Char) : List Char :=
  parenthesized left ++ " AND ".toList ++ parenthesized right

/-- Two query strings of which one must match. -/
def disjunction (left right : List Char) : List Char :=
  parenthesized left ++ " OR ".toList ++ parenthesized right

/-- A query string that must not match. -/
def negation (text : List Char) : List Char :=
  "NOT ".toList ++ parenthesized text

/-- The query string that every document matches. -/
def matchAll : List Char :=
  "*:*".toList

namespace Expr

/-- The text of a predicate.  A field by itself is a predicate if it is declared boolean. -/
def render (scope : Scope) : Expr → Except PredicateError (List Char)
  | .binary op left right =>
    match op with
    | .andAlso => do return conjunction (← left.render scope) (← right.render scope)
    | .orElse => do return disjunction (← left.render scope) (← right.render scope)
    | .equal => scope.equality .equal left right
    | .notEqual => (scope.equality .notEqual left right).map negation
    | .greaterThan => scope.ordering .greaterThan left right
    | .greaterThanOrEqual => scope.ordering .greaterThanOrEqual left right
    | .lessThan => scope.ordering .lessThan left right
    | .lessThanOrEqual => scope.ordering .lessThanOrEqual left right
    | op => .error (.unsupported (.binary op))
  | .call method receiver arguments => scope.call method receiver arguments
  | .field name =>
      if scope.fieldType name = some .boolean then .ok (onField name (Json.boolText true))
      else .error (.unsupported (.asPredicate (.field name)))
  | .unary op _ => .error (.unsupported (.unary op))
  | .literal value => .error (.unsupported (.asPredicate (.literal value)))
  | .var name => .error (.unsupported (.asPredicate (.var name)))

/-- The query string of a predicate. -/
def translate (scope : Scope) (expr : Expr) : Except PredicateError String :=
  (expr.render scope).map String.ofList

/-- The text of some predicates that must all hold; each is joined to those before it. -/
def renderAll (scope : Scope) : List Expr → Except PredicateError (List Char)
  | [] => .ok matchAll
  | expr :: rest => do
      rest.foldlM (fun text expr => do return conjunction text (← expr.render scope))
        (← expr.render scope)

/-- The query string of some predicates that must all hold. -/
def translateAll (scope : Scope) (exprs : List Expr) : Except PredicateError String :=
  (renderAll scope exprs).map String.ofList

end Expr

end SearchQuery
