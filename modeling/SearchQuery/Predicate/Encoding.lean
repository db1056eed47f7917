import SearchQuery.Json.Form
import SearchQuery.Predicate.Expr

/-!
# Expressions as JSON

The JSON form of an expression: an object whose one key is the tag of the node and whose value is
its body, or the bare tag of a node without a body.
-/

namespace SearchQuery

open Json

/-! ## Writing -/

namespace Literal

/-- Floats have a point or an exponent part, the latter beyond sixteen places before the point or
from five zeros after it on.  What is no finite number has no form of its own. -/
def jsonFloatFormat : Number.FloatFormat where
  tie := .even
  isPositional point := -5 < point ∧ point ≤ 16
  afterWhole := ".0"
  nan := "null"
  infinity := "null"
  negativeInfinity := "null"

/-- The JSON form of a float. -/
def floatToJson (value : Number.Binary64) : Value :=
  if value.isFinite then .number (String.ofList (value.text jsonFloatFormat)) else .null

/-- The JSON form of a constant. -/
def toJson : Literal → Value
  | null => .string "Null"
  | bool value => .tagged "Bool" (.bool value)
  | integer value => .tagged "Integer" (.int value.toInt)
  | float value => .tagged "Float" (floatToJson value)
  | text value => .tagged "Text" (.string value)

end Literal

namespace Expr

mutual

/-- The JSON form of an expression. -/
def toJson : Expr → Value
  | field name => .tagged "Field" (.string name)
  | literal value => .tagged "Literal" value.toJson
  | var name => .tagged "Variable" (.string name)
  | binary op left right =>
      .tagged "Binary" (.object
        [("op", .string op.name), ("left", left.toJson), ("right", right.toJson)])
  | unary op operand =>
      .tagged "Unary" (.object [("op", .string op.name), ("operand", operand.toJson)])
  | call method receiver arguments =>
      .tagged "Call" (.object
        [("method", .string method), ("receiver", receiverToJson receiver),
          ("args", .array (allToJson arguments))])

/-- The JSON form of a receiver. -/
def receiverToJson : Option Expr → Value
  | none => .null
  | some receiver => receiver.toJson

/-- The JSON forms of some expressions. -/
def allToJson : List Expr → List Value
  | [] => []
  | expr :: rest => expr.toJson :: allToJson rest

end

end Expr

/-! ## Reading -/

namespace Literal

/-- Takes a constant. -/
def form (level : Nat) : Reader Literal :=
  choiceForm alternative? level
where
  body {α : Type} (reader : Reader α) (make : α → Literal) : Alternative Literal :=
    .tagged fun _ text => do
      let (value, rest) ← reader text
      return (make value, rest)
  alternative? : String → Option (Alternative Literal)
    | "Null" => some (.bare .null)
    | "Bool" => some (body boolForm .bool)
    | "Integer" => some (body (wholeForm Number.int64?) .integer)
    | "Float" => some (body floatForm .float)
    | "Text" => some (body stringForm .text)
    | _ => none

end Literal

/-- Takes the name of an operator between two expressions. -/
def BinaryOp.form (level : Nat) : Reader BinaryOp :=
  choiceForm (fun name => (ofName? name).map .bare) level

/-- Takes the name of an operator on one expression. -/
def UnaryOp.form (level : Nat) : Reader UnaryOp :=
  choiceForm (fun name => (ofName? name).map .bare) level

namespace Expr

/-- The parts of an operation between two expressions, as far as they are read. -/
structure BinaryParts where
  op : Option BinaryOp := none
  left : Option Expr := none
  right : Option Expr := none

/-- An operation between two expressions. -/
def binaryForm (operand : Reader Expr) : RecordForm BinaryParts Expr where
  fields :=
    [.of "op" BinaryOp.form fun parts op => { parts with op },
      .of "left" (fun _ => operand) fun parts left => { parts with left },
      .of "right" (fun _ => operand) fun parts right => { parts with right }]
  empty := {}
  finish parts := do return .binary (← parts.op) (← parts.left) (← parts.right)

/-- The parts of an operation on one expression, as far as they are read. -/
structure UnaryParts where
  op : Option UnaryOp := none
  operand : Option Expr := none

/-- An operation on one expression. -/
def unaryForm (operand : Reader Expr) : RecordForm UnaryParts Expr where
  fields :=
    [.of "op" UnaryOp.form fun parts op => { parts with op },
      .of "operand" (fun _ => operand) fun parts operand => { parts with operand }]
  empty := {}
  finish parts := do return .unary (← parts.op) (← parts.operand)

/-- The parts of a call, as far as they are read. -/
structure CallParts where
  method : Option String := none
  receiver : Option Expr := none
  arguments : Option (List Expr) := none

/-- A call.  Its receiver may be left out. -/
def callForm (steps : Nat) (receiver argument : Reader Expr) : RecordForm CallParts Expr where
  fields :=
    [.of "method" (fun _ => stringForm) fun parts method => { parts with method },
      .of "receiver" (fun _ => optionForm receiver) fun parts receiver => { parts with receiver },
      .of "args" (listForm steps fun _ => argument) fun parts arguments =>
        { parts with arguments }]
  empty := {}
  finish parts := do return .call (← parts.method) parts.receiver (← parts.arguments)

/-- Takes an expression.  The expressions that stand in its record are read by `operand`, those
that stand in a list of the record by `argument`. -/
def formWith (steps : Nat) (operand argument : Reader Expr) (level : Nat) : Reader Expr :=
  choiceForm alternative? level
where
  alternative? : String → Option (Alternative Expr)
    | "Field" => some (.tagged fun _ => named .field)
    | "Literal" => some (.tagged constant)
    | "Variable" => some (.tagged fun _ => named .var)
    | "Binary" => some (.tagged ((binaryForm operand).read steps))
    | "Unary" => some (.tagged ((unaryForm operand).read steps))
    | "Call" => some (.tagged ((callForm steps operand argument).read steps))
    | _ => none
  named (make : String → Expr) : Reader Expr := fun text => do
    let (name, rest) ← stringForm text
    return (make name, rest)
  constant (level : Nat) : Reader Expr := fun text => do
    let (value, rest) ← Literal.form level text
    return (.literal value, rest)

/-- Stands for a reader where no level is left: a bracket is too deep before it is reached. -/
def noLevel : Reader Expr := fun text =>
  .error (.before .tooDeep text)

/-- Takes an expression.  Its operands stand two levels below it: in the record of the node, in
the object with the tag.  The arguments of a call stand one level further down, in their list. -/
def form (steps : Nat) : (level : Nat) → Reader Expr
  | level + 3 => formWith steps (form steps (level + 1)) (form steps level) (level + 3)
  | 2 => formWith steps (form steps 0) noLevel 2
  | level => formWith steps noLevel noLevel level

/-- Reads the JSON form of an expression. -/
def read (text : List Char) : Except Fault Expr :=
  readForm form text

end Expr

end SearchQuery
