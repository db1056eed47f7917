import SearchQuery.Json.Value
import SearchQuery.Number.FloatText

/-!
# Predicate expressions

A predicate over the fields of an entity: comparisons, conjunctions, disjunctions and calls of
methods.  An expression is a tree that callers build as they find it, so it can hold more than can
be translated: arithmetic, negation and methods of any name.
-/

namespace SearchQuery

open Number

/-! ## Literals -/

/-- A constant. -/
inductive Literal where
  | null
  | bool (value : Bool)
  | integer (value : Int64)
  | float (value : Binary64)
  | text (value : String)
deriving DecidableEq, Repr, Inhabited

namespace Literal

/-- Floats are written without an exponent part, and whole ones without a point. -/
def floatFormat : FloatFormat where
  tie := .up
  isPositional _ := true
  afterWhole := ""
  nan := "NaN"
  infinity := "inf"
  negativeInfinity := "-inf"

/-- The text of a constant; a text is itself. -/
def display : Literal → List Char
  | null => "null".toList
  | bool value => Json.boolText value
  | integer value => intText value.toInt
  | float value => value.text floatFormat
  | text value => value.toList

end Literal

/-! ## Operators -/

/-- The operators between two expressions.  Only comparisons and the two connectives can be
translated. -/
inductive BinaryOp where
  | equal
  | notEqual
  | greaterThan
  | greaterThanOrEqual
  | lessThan
  | lessThanOrEqual
  | andAlso
  | orElse
  | add
  | subtract
  | multiply
  | divide
  | modulo
deriving DecidableEq, Repr

namespace BinaryOp

/-- All operators. -/
def all : List BinaryOp :=
  [equal, notEqual, greaterThan, greaterThanOrEqual, lessThan, lessThanOrEqual, andAlso, orElse,
    add, subtract, multiply, divide, modulo]

/-- The name of an operator. -/
def name : BinaryOp → String
  | equal => "Equal"
  | notEqual => "NotEqual"
  | greaterThan => "GreaterThan"
  | greaterThanOrEqual => "GreaterThanOrEqual"
  | lessThan => "LessThan"
  | lessThanOrEqual => "LessThanOrEqual"
  | andAlso => "AndAlso"
  | orElse => "OrElse"
  | add => "Add"
  | subtract => "Subtract"
  | multiply => "Multiply"
  | divide => "Divide"
  | modulo => "Modulo"

/-- The operator of a given name. -/
def ofName? (name : String) : Option BinaryOp :=
  all.find? (·.name = name)

/-- The operator that says the same when the operands change sides. -/
def converse : BinaryOp → BinaryOp
  | greaterThan => lessThan
  | greaterThanOrEqual => lessThanOrEqual
  | lessThan => greaterThan
  | lessThanOrEqual => greaterThanOrEqual
  | op => op

@[simp] theorem converse_converse (op : BinaryOp) : op.converse.converse = op := by
  cases op <;> rfl

theorem ofName?_name (op : BinaryOp) : ofName? op.name = some op := by
  cases op <;> decide

end BinaryOp

/-- The operators on one expression.  None of them can be translated. -/
inductive UnaryOp where
  | not
  | negate
deriving DecidableEq, Repr

namespace UnaryOp

/-- All operators. -/
def all : List UnaryOp :=
  [not, negate]

/-- The name of an operator. -/
def name : UnaryOp → String
  | not => "Not"
  | negate => "Negate"

/-- The operator of a given name. -/
def ofName? (name : String) : Option UnaryOp :=
  all.find? (·.name = name)

end UnaryOp

/-! ## Methods -/

/-- The methods that can be translated. -/
inductive Method where
  /-- The field has the value somewhere. -/
  | contains
  /-- The field begins with the value. -/
  | startsWith
  /-- The field ends with the value. -/
  | endsWith
  /-- The field satisfies a fragment of the query syntax, which is taken as it stands. -/
  | fragment
deriving DecidableEq, Repr

namespace Method

/-- All methods. -/
def all : List Method :=
  [contains, startsWith, endsWith, fragment]

/-- The name of a method. -/
def name : Method → String
  | contains => "contains"
  | startsWith => "starts_with"
  | endsWith => "ends_with"
  | fragment => "lucene_match"

/-- The method of a given name. -/
def ofName? (name : String) : Option Method :=
  all.find? (·.name = name)

end Method

/-! ## Expressions -/

/-- An expression. -/
inductive Expr where
  /-- A field of the entity. -/
  | field (name : String)
  /-- A constant. -/
  | literal (value : Literal)
  /-- A value that is known when the expression is translated. -/
  | var (name : String)
  | binary (op : BinaryOp) (left right : Expr)
  | unary (op : UnaryOp) (operand : Expr)
  /-- A call of a method of the receiver, or of a function if there is none. -/
  | call (method : String) (receiver : Option Expr) (arguments : List Expr)
deriving Repr, Inhabited

namespace Expr

/-- A call of a method with one argument. -/
def callOne (method : Method) (receiver argument : Expr) : Expr :=
  .call method.name (some receiver) [argument]

/-- The receiver has the value somewhere. -/
def contains (receiver value : Expr) : Expr :=
  callOne .contains receiver value

/-- The receiver begins with the value. -/
def startsWith (receiver value : Expr) : Expr :=
  callOne .startsWith receiver value

/-- The receiver ends with the value. -/
def endsWith (receiver value : Expr) : Expr :=
  callOne .endsWith receiver value

/-- The field satisfies a fragment of the query syntax. -/
def satisfies (field : String) (fragment : Expr) : Expr :=
  .call Method.fragment.name none [.field field, fragment]

/-- The expression with its logical negation. -/
def negated (operand : Expr) : Expr :=
  .unary .not operand

/-- A short description. -/
def describe : Expr → String
  | field name => "field '" ++ name ++ "'"
  | literal value => "literal '" ++ String.ofList value.display ++ "'"
  | var name => "variable '" ++ name ++ "'"
  | binary op _ _ => op.name ++ " expression"
  | unary op _ => op.name ++ " expression"
  | call method _ _ => "call to '" ++ method ++ "'"

end Expr

end SearchQuery
