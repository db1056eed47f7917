import SearchQuery.Proofs.JoinedPredicates
import SearchQuery.Proofs.PredicateGrammar

/-!
# Comparisons that are written backwards

A comparison can have its field on either side.  With the converse operator, the operands may
change sides: the translation is the same, and so is the error if there is none.

* `BinaryOp.holdsFor` says what a comparison means.  Of all comparisons only the converse means the
  same when the operands change sides (`holdsFor_converse`, `eq_of_holdsFor_eq`).
* `orient_converse` is the reason: the field, the other operand and the operator as seen from the
  field are the same from both sides.  Neither the field's type nor the value is looked at.
* `Reversed` relates two predicates that differ in the direction of some of their comparisons, at
  any depth of conjunctions and disjunctions, and `render_eq_of_reversed` follows it.
-/

namespace SearchQuery

/-! ## Operators -/

namespace BinaryOp

/-- Whether a comparison holds of operands that stand in this order to each other. -/
def holdsFor : BinaryOp → Ordering → Bool
  | equal, order => order.isEq
  | notEqual, order => order.isNe
  | greaterThan, order => order.isGT
  | greaterThanOrEqual, order => order.isGE
  | lessThan, order => order.isLT
  | lessThanOrEqual, order => order.isLE
  | _, _ => false

theorem holdsFor_converse (op : BinaryOp) (order : Ordering) :
    op.converse.holdsFor order = op.holdsFor order.swap := by
  cases op <;> cases order <;> rfl

theorem isComparison_converse (op : BinaryOp) : op.converse.isComparison = op.isComparison := by
  cases op <;> rfl

/-- Three orders are enough to tell six comparisons apart. -/
theorem eq_of_holdsFor_eq {op op' : BinaryOp} (hop : op.isComparison = true)
    (hop' : op'.isComparison = true) (h : ∀ order, op.holdsFor order = op'.holdsFor order) :
    op = op' := by
  have hlt := h .lt
  have heq := h .eq
  have hgt := h .gt
  clear h
  cases op <;> cases op' <;> simp_all [isComparison, holdsFor]

end BinaryOp

/-! ## One comparison -/

/-- Whether an expression is a field. -/
def Expr.isField : Expr → Bool
  | .field _ => true
  | _ => false

namespace Scope

variable {left right : Expr}

/-- If exactly one operand is a field, a comparison is oriented the same way from both sides. -/
theorem orient_converse (h : left.isField ≠ right.isField) (op : BinaryOp) :
    orient op.converse right left = orient op left right := by
  cases left with
  | field name =>
    have hright : ∀ other, right ≠ .field other := by
      rintro other rfl
      exact h rfl
    rw [orient_field_left hright, orient_field_right hright, BinaryOp.converse_converse]
  | _ =>
    cases right with
    | field name => rfl
    | _ => exact absurd rfl h

theorem comparison_converse (scope : Scope) (require : BinaryOp → List Char → List Char)
    (h : left.isField ≠ right.isField) (op : BinaryOp) :
    scope.comparison require op.converse right left = scope.comparison require op left right := by
  rw [comparison, comparison, orient_converse h]

end Scope

namespace Expr

/-- The converse of an operator is of the same sort: an equality stays one, an ordering too. -/
theorem render_converse (scope : Scope) {op : BinaryOp} (hop : op.isComparison = true)
    {left right : Expr} (h : left.isField ≠ right.isField) :
    (Expr.binary op.converse right left).render scope =
      (Expr.binary op left right).render scope := by
  cases op with
  | equal => exact scope.comparison_converse (fun _ text => text) h .equal
  | notEqual => exact congrArg (Except.map negation) (scope.comparison_converse _ h .notEqual)
  | greaterThan => exact scope.comparison_converse _ h .greaterThan
  | greaterThanOrEqual => exact scope.comparison_converse _ h .greaterThanOrEqual
  | lessThan => exact scope.comparison_converse _ h .lessThan
  | lessThanOrEqual => exact scope.comparison_converse _ h .lessThanOrEqual
  | andAlso | orElse | add | subtract | multiply | divide | modulo => exact nomatch hop

/-! ## Some comparisons of a predicate -/

/-- Two predicates that differ in the direction of some comparisons of a field. -/
inductive Reversed : Expr → Expr → Prop where
  /-- Nothing is changed. -/
  | kept (expr : Expr) : Reversed expr expr
  /-- A comparison is reversed. -/
  | comparison {op : BinaryOp} (hop : op.isComparison = true) {left right : Expr}
      (h : left.isField ≠ right.isField) :
      Reversed (.binary op left right) (.binary op.converse right left)
  | conjunction {left right left' right' : Expr} (hleft : Reversed left left')
      (hright : Reversed right right') :
      Reversed (.binary .andAlso left right) (.binary .andAlso left' right')
  | disjunction {left right left' right' : Expr} (hleft : Reversed left left')
      (hright : Reversed right right') :
      Reversed (.binary .orElse left right) (.binary .orElse left' right')

theorem render_eq_of_reversed (scope : Scope) {expr expr' : Expr} (h : Reversed expr expr') :
    expr.render scope = expr'.render scope := by
  induction h with
  | kept expr => rfl
  | comparison hop h => exact (render_converse scope hop h).symm
  | conjunction _ _ ihleft ihright => rw [render, render, ihleft, ihright]
  | disjunction _ _ ihleft ihright => rw [render, render, ihleft, ihright]

/-- The loop over predicates sees their texts and their errors only. -/
theorem joinedFrom_eq_of_reversed (scope : Scope) {exprs exprs' : List Expr}
    (h : List.Forall₂ Reversed exprs exprs') (joined : Option (List Char)) :
    joinedFrom scope joined exprs = joinedFrom scope joined exprs' := by
  induction h generalizing joined with
  | nil => rfl
  | cons hexpr _ ih =>
    rw [joinedFrom_cons, joinedFrom_cons, render_eq_of_reversed scope hexpr]
    simp only [ih]

/-- Writing comparisons backwards changes nothing about the translation of a predicate, or of some
that must all hold, whether it succeeds or fails.  The operator of a comparison that is written
backwards is the one that says the same of the operands. -/
theorem translate_eq_of_reversed (scope : Scope) :
    (∀ op op' : BinaryOp, op.isComparison = true → op'.isComparison = true →
      (op' = op.converse ↔ ∀ order : Ordering, op'.holdsFor order = op.holdsFor order.swap)) ∧
      (∀ expr expr', Reversed expr expr' → expr.translate scope = expr'.translate scope) ∧
      ∀ exprs exprs', List.Forall₂ Reversed exprs exprs' →
        translateAll scope exprs = translateAll scope exprs' := by
  refine ⟨fun op op' hop hop' => ?_, ?_, ?_⟩
  · constructor
    · rintro rfl order
      exact op.holdsFor_converse order
    · intro h
      refine BinaryOp.eq_of_holdsFor_eq hop' (op.isComparison_converse.trans hop) fun order => ?_
      rw [h order, op.holdsFor_converse]
  · intro expr expr' h
    rw [translate, translate, render_eq_of_reversed scope h]
  · intro exprs exprs' h
    have hrender : renderAll scope exprs = renderAll scope exprs' :=
      joinedFrom_eq_of_reversed scope h none
    rw [translateAll, translateAll, hrender]

/-- An ordering and an inequality with the field on either side, and a comparison that stays. -/
def threeComparisons (ordering inequality : Expr) : Expr :=
  .binary .andAlso ordering
    (.binary .orElse inequality (.binary .lessThan (.literal (.integer 7)) (.field "count")))

/-- A scope with a numeric field and one variable. -/
def countScope : Scope where
  fieldType name := if name = "count" then some .numeric else none
  resolve name := if name = "word" then some (.text "many") else none

/-- One predicate is translated; behind it, one whose constant is no number fails. -/
theorem translate_eq_of_reversed_threeComparisons :
    let backwards := threeComparisons (.binary .lessThanOrEqual (.literal .null) (.field "age"))
      (.binary .notEqual (.var "word") (.field "name"))
    let forwards := threeComparisons (.binary .greaterThanOrEqual (.field "age") (.literal .null))
      (.binary .notEqual (.field "name") (.var "word"))
    let failing := Expr.binary .greaterThan (.var "word") (.field "count")
    let failing' := Expr.binary .lessThan (.field "count") (.var "word")
    (.greaterThanOrEqual = BinaryOp.lessThanOrEqual.converse ∧ Reversed backwards forwards ∧
        backwards.translate countScope = forwards.translate countScope) ∧
      List.Forall₂ Reversed [backwards, failing] [forwards, failing'] ∧
      translateAll countScope [backwards, failing] =
        translateAll countScope [forwards, failing'] := by
  intro backwards forwards failing failing'
  have hbackwards : Reversed backwards forwards :=
    .conjunction (.comparison rfl (by decide))
      (.disjunction (.comparison rfl (by decide)) (.kept _))
  have hboth : List.Forall₂ Reversed [backwards, failing] [forwards, failing'] :=
    .cons hbackwards (.cons (.comparison rfl (by decide)) .nil)
  obtain ⟨hconverse, htranslate, htranslateAll⟩ := translate_eq_of_reversed countScope
  have hoperator : .greaterThanOrEqual = BinaryOp.lessThanOrEqual.converse := by
    refine (hconverse _ _ rfl rfl).mpr fun order => ?_
    cases order <;> rfl
  exact ⟨⟨hoperator, hbackwards, htranslate backwards forwards hbackwards⟩, hboth,
    htranslateAll _ _ hboth⟩

end Expr

end SearchQuery
