import SearchQuery.Proofs.PredicateGrammar

/-!
# Variables that are bound

A variable may be bound when a predicate is translated, or replaced by its constant before that:
neither the query string nor an error tells which.

* `Expr.bindVars` puts constants in place of the variables that are bound.  It does so only where a
  value is asked for: beside a field in a comparison, and where a method takes a value.
* An error names the operand that has no value, and so it can hold an expression in which other
  variables are replaced.  `PredicateError.report` is all that an error tells, and `SameOutcome`
  compares two outcomes by it.
* `sameOutcome_value` is the step: an operand is resolved alike before and after.  One lemma for
  each part of a predicate takes it to the whole, `translate_bindVars`.
-/

namespace SearchQuery

/-! ## What errors tell -/

/-- What an error tells: its cause, its wording, and of a value that does not fit the field, its
declared type and the text of the value. -/
structure PredicateError.Report where
  reason : String
  message : String
  mismatch : Option (String × FieldType × String)
deriving DecidableEq, Repr

/-- What an error tells. -/
def PredicateError.report (error : PredicateError) : Report where
  reason := error.reason
  message := error.message
  mismatch :=
    match error with
    | .typeMismatch field declared value =>
        some (field, declared, String.ofList value.display)
    | _ => none

/-- Both outcomes are the same result, or errors that tell the same. -/
def SameOutcome (outcome outcome' : Except PredicateError α) : Prop :=
  outcome.mapError PredicateError.report = outcome'.mapError PredicateError.report

namespace SameOutcome

theorem refl (outcome : Except PredicateError α) : SameOutcome outcome outcome :=
  rfl

theorem bind {outcome outcome' : Except PredicateError α} (h : SameOutcome outcome outcome')
    {next next' : α → Except PredicateError β} (hnext : ∀ a, SameOutcome (next a) (next' a)) :
    SameOutcome (outcome >>= next) (outcome' >>= next') := by
  cases outcome with
  | ok a =>
    cases outcome' with
    | ok a' =>
      obtain rfl : a = a' := Except.ok.inj h
      exact hnext a
    | error error' => exact nomatch h
  | error error =>
    cases outcome' with
    | ok a' => exact nomatch h
    | error error' => exact congrArg Except.error (Except.error.inj h)

theorem map {outcome outcome' : Except PredicateError α} (h : SameOutcome outcome outcome')
    (f : α → β) : SameOutcome (outcome.map f) (outcome'.map f) := by
  cases outcome <;> cases outcome' <;> simp_all [SameOutcome, Except.map, Except.mapError]

end SameOutcome

/-! ## Binding variables -/

/-- Whether a method takes a value at this place among its arguments.  A fragment stands behind its
field; all other arguments are values. -/
def Method.takesValueAt : Method → (place : Nat) → Bool
  | fragment, place => place = 1
  | _, _ => true

namespace Expr

mutual

/-- The expression with constants in place of the variables that are bound and stand where a value
is asked for.  `asValue` tells whether the expression itself stands at such a place. -/
def bindVars (resolve : String → Option Literal) (asValue : Bool) : Expr → Expr
  | .field name => .field name
  | .literal value => .literal value
  | .var name => if asValue then (resolve name).elim (.var name) .literal else .var name
  | .binary op left right =>
      .binary op (left.bindVars resolve op.isComparison) (right.bindVars resolve op.isComparison)
  | .unary op operand => .unary op (operand.bindVars resolve false)
  | .call method receiver arguments =>
      .call method (bindReceiver resolve receiver)
        (bindArguments resolve (Method.ofName? method) 0 arguments)

/-- The receiver of a call, with the variables bound in it. -/
def bindReceiver (resolve : String → Option Literal) : Option Expr → Option Expr
  | none => none
  | some receiver => some (receiver.bindVars resolve false)

/-- The arguments of a call from this place on, with the variables bound in them. -/
def bindArguments (resolve : String → Option Literal) (method : Option Method) (place : Nat) :
    List Expr → List Expr
  | [] => []
  | argument :: rest =>
      argument.bindVars resolve (method.any (·.takesValueAt place)) ::
        bindArguments resolve method (place + 1) rest

end

theorem eq_field_or_ne (expr : Expr) :
    (∃ name, expr = .field name) ∨ ∀ name, expr ≠ .field name := by
  cases expr with
  | field name => exact .inl ⟨name, rfl⟩
  | literal | var | binary | unary | call => exact .inr nofun

variable (resolve : String → Option Literal)

theorem length_bindArguments (method : Option Method) (place : Nat) (arguments : List Expr) :
    (bindArguments resolve method place arguments).length = arguments.length := by
  induction arguments generalizing place with
  | nil => rfl
  | cons argument rest ih => rw [bindArguments, List.length_cons, List.length_cons, ih]

/-- A bound variable becomes a constant, and everything else stays what it is at its root. -/
theorem bindVars_ne_field {operand : Expr} (h : ∀ name, operand ≠ .field name) (asValue : Bool)
    (name : String) : operand.bindVars resolve asValue ≠ .field name := by
  cases operand with
  | field other => exact absurd rfl (h other)
  | var other =>
    unfold bindVars
    cases asValue with
    | true => cases resolve other <;> exact nofun
    | false => exact nofun
  | literal | binary | unary | call =>
    unfold bindVars
    exact nofun

end Expr

namespace Scope

/-- The scope with the same fields in which no variable is bound. -/
def withoutBindings (scope : Scope) : Scope :=
  { scope with resolve := fun _ => none }

variable (scope : Scope)

/-! ## Values -/

/-- An operand with its variable bound is resolved without bindings as it is with them. -/
theorem sameOutcome_value (operand : Expr) :
    SameOutcome (scope.withoutBindings.value (operand.bindVars scope.resolve true))
      (scope.value operand) := by
  cases operand with
  | var name =>
    rw [Expr.bindVars, if_pos rfl, value]
    cases scope.resolve name with
    | some value => exact .refl _
    | none => exact .refl _
  | field | literal | binary | unary | call => exact rfl

/-! ## Comparisons -/

theorem orient_of_ne_field {left right : Expr} (hleft : ∀ name, left ≠ .field name)
    (hright : ∀ name, right ≠ .field name) (op : BinaryOp) :
    orient op left right = .error (.unsupported (.noField op)) := by
  unfold orient
  split
  · exact absurd rfl (hleft _)
  · exact absurd rfl (hleft _)
  · exact absurd rfl (hright _)
  · rfl

/-- A comparison keeps its field, its operator and the side of its operand. -/
theorem orient_bindVars (resolve : String → Option Literal) (op : BinaryOp) (left right : Expr) :
    orient op (left.bindVars resolve true) (right.bindVars resolve true) =
      (orient op left right).map fun found =>
        (found.1, found.2.1.bindVars resolve true, found.2.2) := by
  obtain ⟨field, rfl⟩ | hleft := left.eq_field_or_ne
  · obtain ⟨other, rfl⟩ | hright := right.eq_field_or_ne
    · rfl
    · rw [orient_field_left hright, Expr.bindVars,
        orient_field_left (Expr.bindVars_ne_field resolve hright true)]
      rfl
  · obtain ⟨field, rfl⟩ | hright := right.eq_field_or_ne
    · rw [orient_field_right hleft, Expr.bindVars,
        orient_field_right (Expr.bindVars_ne_field resolve hleft true)]
      rfl
    · rw [orient_of_ne_field hleft hright, orient_of_ne_field
        (Expr.bindVars_ne_field resolve hleft true) (Expr.bindVars_ne_field resolve hright true)]
      rfl

theorem sameOutcome_comparison (require : BinaryOp → List Char → List Char) (op : BinaryOp)
    (left right : Expr) :
    SameOutcome
      (scope.withoutBindings.comparison require op (left.bindVars scope.resolve true)
        (right.bindVars scope.resolve true))
      (scope.comparison require op left right) := by
  rw [comparison, comparison, orient_bindVars]
  cases orient op left right with
  | error error => exact .refl _
  | ok found =>
    obtain ⟨field, operand, seen⟩ := found
    refine (scope.sameOutcome_value operand).bind fun value => ?_
    exact .refl _

/-! ## Calls -/

theorem fieldCall_of_ne_field {receiver : Expr} (h : ∀ name, receiver ≠ .field name)
    (method : Method) (pattern : List Char → List Char) (arguments : List Expr) :
    scope.fieldCall method pattern (some receiver) arguments =
      .error (.unsupported (.receiver method)) := by
  unfold fieldCall
  split
  · next heq => exact absurd (Option.some.inj heq) (h _)
  · rfl

theorem sameOutcome_fieldCall {method : Method} (hmethod : method ≠ .fragment)
    (pattern : List Char → List Char) (receiver : Option Expr) (arguments : List Expr) :
    SameOutcome
      (scope.withoutBindings.fieldCall method pattern (Expr.bindReceiver scope.resolve receiver)
        (Expr.bindArguments scope.resolve (some method) 0 arguments))
      (scope.fieldCall method pattern receiver arguments) := by
  have hplace (place : Nat) : (some method).any (·.takesValueAt place) = true := by
    cases method with
    | fragment => exact absurd rfl hmethod
    | contains | startsWith | endsWith => rfl
  cases receiver with
  | none => exact .refl _
  | some receiver =>
    obtain ⟨field, rfl⟩ | hreceiver := receiver.eq_field_or_ne
    · rcases arguments with _ | ⟨argument, _ | ⟨second, rest⟩⟩
      · exact .refl _
      · rw [Expr.bindArguments, hplace]
        exact (scope.sameOutcome_value argument).bind fun value => .refl _
      · -- of too many arguments only their number is told
        simp only [fieldCall, Expr.bindReceiver, Expr.bindVars, Expr.bindArguments,
          List.length_cons, Expr.length_bindArguments]
        exact .refl _
    · rw [fieldCall_of_ne_field scope hreceiver, Expr.bindReceiver,
        fieldCall_of_ne_field _ (Expr.bindVars_ne_field scope.resolve hreceiver false)]
      exact .refl _

theorem fragmentCall_of_ne_field {first : Expr} (h : ∀ name, first ≠ .field name)
    (rest : List Expr) :
    scope.fragmentCall none (first :: rest) = .error (.unsupported .fragmentArguments) := by
  unfold fragmentCall
  split
  · next heq => exact absurd (List.cons.inj heq).1 (h _)
  · rfl

theorem sameOutcome_fragmentCall (receiver : Option Expr) (arguments : List Expr) :
    SameOutcome
      (scope.withoutBindings.fragmentCall (Expr.bindReceiver scope.resolve receiver)
        (Expr.bindArguments scope.resolve (some .fragment) 0 arguments))
      (scope.fragmentCall receiver arguments) := by
  cases receiver with
  | some receiver => exact .refl _
  | none =>
    cases arguments with
    | nil => exact .refl _
    | cons first rest =>
      obtain ⟨field, rfl⟩ | hfirst := first.eq_field_or_ne
      · rcases rest with _ | ⟨fragment, _ | ⟨third, rest⟩⟩
        · exact .refl _
        · exact (scope.sameOutcome_value fragment).bind fun value => .refl _
        · exact .refl _
      · rw [fragmentCall_of_ne_field scope hfirst, Expr.bindReceiver, Expr.bindArguments,
          fragmentCall_of_ne_field _ (Expr.bindVars_ne_field scope.resolve hfirst _)]
        exact .refl _

theorem sameOutcome_call (name : String) (receiver : Option Expr) (arguments : List Expr) :
    SameOutcome
      (scope.withoutBindings.call name (Expr.bindReceiver scope.resolve receiver)
        (Expr.bindArguments scope.resolve (Method.ofName? name) 0 arguments))
      (scope.call name receiver arguments) := by
  unfold call
  cases Method.ofName? name with
  | none => exact .refl _
  | some method =>
    cases method with
    | contains => exact scope.sameOutcome_fieldCall (by decide) _ receiver arguments
    | startsWith => exact scope.sameOutcome_fieldCall (by decide) _ receiver arguments
    | endsWith => exact scope.sameOutcome_fieldCall (by decide) _ receiver arguments
    | fragment => exact scope.sameOutcome_fragmentCall receiver arguments

end Scope

/-! ## Predicates -/

namespace Expr

/-- Only connectives look into their parts. -/
theorem sameOutcome_render (scope : Scope) : ∀ expr : Expr,
    SameOutcome ((expr.bindVars scope.resolve false).render scope.withoutBindings)
      (expr.render scope)
  | .binary op left right => by
    have hleft := sameOutcome_render scope left
    have hright := sameOutcome_render scope right
    cases op with
    | andAlso | orElse => exact hleft.bind fun left => hright.bind fun right => .refl _
    | equal => exact scope.sameOutcome_comparison (fun _ text => text) .equal left right
    | notEqual =>
      exact (scope.sameOutcome_comparison (fun _ text => text) .notEqual left right).map negation
    | greaterThan =>
      exact scope.sameOutcome_comparison Scope.orderingInterval .greaterThan left right
    | greaterThanOrEqual =>
      exact scope.sameOutcome_comparison Scope.orderingInterval .greaterThanOrEqual left right
    | lessThan => exact scope.sameOutcome_comparison Scope.orderingInterval .lessThan left right
    | lessThanOrEqual =>
      exact scope.sameOutcome_comparison Scope.orderingInterval .lessThanOrEqual left right
    | add | subtract | multiply | divide | modulo => exact .refl _
  | .call name receiver arguments => scope.sameOutcome_call name receiver arguments
  | .field name => .refl _
  | .unary op operand => .refl _
  | .literal value => .refl _
  | .var name => .refl _

/-- A predicate with its variables bound beforehand is translated without bindings as the predicate
is with them: to the same query string, or with an error that tells the same. -/
theorem translate_bindVars (scope : Scope) (expr : Expr) :
    ((expr.bindVars scope.resolve false).translate scope.withoutBindings).mapError
        PredicateError.report =
      (expr.translate scope).mapError PredicateError.report :=
  (sameOutcome_render scope expr).map String.ofList

end Expr

end SearchQuery
