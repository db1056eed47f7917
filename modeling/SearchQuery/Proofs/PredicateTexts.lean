import SearchQuery.Predicate.Translation
import SearchQuery.Proofs.Escaping
import SearchQuery.Proofs.NumberText
import SearchQuery.Proofs.Outcome

/-!
# The texts of predicates

What a predicate must be made of if it is translated, and what is written for it.

* `Literal.bareText` is the text of a constant before it is escaped.  `valueText_eq_of_declared`
  and `valueText_eq_escape` say which fields it is written on as it is, and on which it is escaped.
* `comparison_eq_ok`, `fieldCall_eq_ok` and `fragmentCall_eq_ok` take a translated comparison or
  call apart.
-/

namespace SearchQuery

open Text

/-! ## Values -/

/-- The text of a constant before it is escaped: on a numeric field a text has no blanks about it,
and on a boolean field it is in small letters. -/
def Literal.bareText (declared : Option FieldType) : Literal → List Char
  | .text value =>
    match declared with
    | some .numeric => trim value.toList
    | some .boolean => value.toList.map Char.toLower
    | _ => value.toList
  | value => value.display

theorem Literal.bareText_eq_display {declared : Option FieldType} {value : Literal}
    (hnumeric : declared ≠ some .numeric) (hboolean : declared ≠ some .boolean) :
    value.bareText declared = value.display := by
  cases value with
  | text value =>
    unfold bareText
    dsimp only
    split
    · contradiction
    · contradiction
    · rfl
  | _ => rfl

theorem escape_boolText (value : Bool) : escape (Json.boolText value) = Json.boolText value := by
  cases value <;> decide

namespace Scope

theorem numericText?_eq_some {value : Literal} {text : List Char}
    (h : numericText? value = some text) :
    text = value.bareText (some .numeric) ∧ Number.IsNumberText text := by
  cases value with
  | integer value =>
    obtain rfl := Option.some.inj h
    exact ⟨rfl, Number.isNumberText_intText _⟩
  | float value =>
    rw [numericText?] at h
    split at h
    · rename_i hfinite
      obtain rfl := Option.some.inj h
      exact ⟨rfl, Number.isNumberText_display_float hfinite⟩
    · exact nomatch h
  | text value =>
    rw [numericText?] at h
    split at h
    · rename_i hdecimal
      obtain rfl := Option.some.inj h
      exact ⟨rfl, Number.isNumberText_of_isFiniteDecimal hdecimal⟩
    · exact nomatch h
  | null => exact nomatch h
  | bool => exact nomatch h

theorem booleanText?_eq_some {value : Literal} {text : List Char}
    (h : booleanText? value = some text) :
    text = value.bareText (some .boolean) ∧ ∃ b, text = Json.boolText b := by
  cases value with
  | bool value =>
    obtain rfl := Option.some.inj h
    exact ⟨rfl, value, rfl⟩
  | text value =>
    rw [booleanText?] at h
    split at h
    · rename_i hword
      obtain rfl := Option.some.inj h
      refine ⟨rfl, ?_⟩
      rcases hword with hword | hword
      · exact ⟨true, hword⟩
      · exact ⟨false, hword⟩
    · exact nomatch h
  | null => exact nomatch h
  | integer => exact nomatch h
  | float => exact nomatch h

/-- The word for `null` has nothing to escape. -/
theorem plainText_eq (value : Literal) : plainText value = escape value.display := by
  unfold plainText
  split
  · rename_i hnull
    subst hnull
    decide
  · rfl

theorem orMismatch_eq_ok {field : String} {value : Literal} {declared : FieldType}
    {checked : Option (List Char)} {text : List Char} :
    valueText.orMismatch field value declared checked = .ok text ↔ checked = some text := by
  cases checked with
  | some text' => exact ⟨fun h => congrArg some (Except.ok.inj h), fun h => by cases h; rfl⟩
  | none => exact ⟨nofun, nofun⟩

section

variable {scope : Scope} {field : String} {value : Literal} {text : List Char}

theorem valueText_numeric (hfield : scope.fieldType field = some .numeric) :
    scope.valueText field value = .ok text ↔ numericText? value = some text := by
  rw [valueText, hfield]
  exact orMismatch_eq_ok

theorem valueText_boolean (hfield : scope.fieldType field = some .boolean) :
    scope.valueText field value = .ok text ↔ booleanText? value = some text := by
  rw [valueText, hfield]
  exact orMismatch_eq_ok

theorem valueText_plain (hnumeric : scope.fieldType field ≠ some .numeric)
    (hboolean : scope.fieldType field ≠ some .boolean) :
    scope.valueText field value = .ok (escape value.display) := by
  rw [← plainText_eq, valueText]
  split
  · contradiction
  · contradiction
  · rfl

theorem isNumberText_valueText (hfield : scope.fieldType field = some .numeric)
    (h : scope.valueText field value = .ok text) : Number.IsNumberText text :=
  (numericText?_eq_some ((valueText_numeric hfield).mp h)).2

/-- On a field that is declared numeric or boolean nothing is escaped. -/
theorem valueText_eq_of_declared
    (hfield : scope.fieldType field = some .numeric ∨ scope.fieldType field = some .boolean)
    (h : scope.valueText field value = .ok text) :
    text = value.bareText (scope.fieldType field) := by
  rcases hfield with hfield | hfield
  · rw [hfield]
    exact (numericText?_eq_some ((valueText_numeric hfield).mp h)).1
  · rw [hfield]
    exact (booleanText?_eq_some ((valueText_boolean hfield).mp h)).1

/-- On every field but a numeric one the text may as well be escaped. -/
theorem valueText_eq_escape (hfield : scope.fieldType field ≠ some .numeric)
    (h : scope.valueText field value = .ok text) :
    text = escape (value.bareText (scope.fieldType field)) := by
  by_cases hboolean : scope.fieldType field = some .boolean
  · obtain ⟨hbare, b, hb⟩ := booleanText?_eq_some ((valueText_boolean hboolean).mp h)
    rw [hboolean, ← hbare, hb, escape_boolText]
  · rw [valueText_plain hfield hboolean] at h
    rw [Literal.bareText_eq_display hfield hboolean]
    exact (Except.ok.inj h).symm

/-- Whatever a field is compared with, its text is a number or escaped. -/
theorem isNumberText_or_escaped_valueText (h : scope.valueText field value = .ok text) :
    Number.IsNumberText text ∨ Escaped text := by
  by_cases hfield : scope.fieldType field = some .numeric
  · exact .inl (isNumberText_valueText hfield h)
  · rw [valueText_eq_escape hfield h]
    exact .inr (escaped_escape _)

end

/-! ## Comparisons -/

/-- Only constants and variables have a value. -/
theorem ne_field_of_value {scope : Scope} {operand : Expr} {value : Literal}
    (h : scope.value operand = .ok value) (name : String) : operand ≠ .field name := by
  rintro rfl
  exact nomatch h

theorem orient_field_left {operand : Expr} (hoperand : ∀ name, operand ≠ .field name)
    (op : BinaryOp) (field : String) :
    orient op (.field field) operand = .ok (field, operand, op) := by
  cases operand with
  | field name => exact absurd rfl (hoperand name)
  | _ => rfl

theorem orient_field_right {operand : Expr} (hoperand : ∀ name, operand ≠ .field name)
    (op : BinaryOp) (field : String) :
    orient op operand (.field field) = .ok (field, operand, op.converse) := by
  cases operand with
  | field name => exact absurd rfl (hoperand name)
  | _ => rfl

theorem orient_eq_ok {op op' : BinaryOp} {left right operand : Expr} {field : String}
    (h : orient op left right = .ok (field, operand, op')) :
    left = .field field ∧ right = operand ∨ left = operand ∧ right = .field field := by
  unfold orient at h
  split at h
  · exact nomatch h
  · obtain ⟨rfl, hrest⟩ := Prod.mk.inj (Except.ok.inj h)
    exact .inl ⟨rfl, (Prod.mk.inj hrest).1⟩
  · obtain ⟨rfl, hrest⟩ := Prod.mk.inj (Except.ok.inj h)
    exact .inr ⟨(Prod.mk.inj hrest).1, rfl⟩
  · exact nomatch h

theorem comparison_of_orient {scope : Scope} {op op' : BinaryOp} {left right operand : Expr}
    {field : String} {value : Literal} (horient : orient op left right = .ok (field, operand, op'))
    (hvalue : scope.value operand = .ok value) (require : BinaryOp → List Char → List Char) :
    scope.comparison require op left right =
      (scope.valueText field value).map fun text => onField field (require op' text) := by
  rw [comparison, horient]
  change scope.value operand >>= (fun value => _) = _
  rw [hvalue]
  change scope.valueText field value >>= (fun text => _) = _
  cases scope.valueText field value <;> rfl

theorem comparison_eq_ok {scope : Scope} {require : BinaryOp → List Char → List Char}
    {op : BinaryOp} {left right : Expr} {text : List Char} :
    scope.comparison require op left right = .ok text ↔
      ∃ field operand op' value inner, orient op left right = .ok (field, operand, op') ∧
        scope.value operand = .ok value ∧ scope.valueText field value = .ok inner ∧
        onField field (require op' inner) = text := by
  constructor
  · intro h
    obtain ⟨⟨field, operand, op'⟩, horient, h⟩ := bind_eq_ok.mp h
    obtain ⟨value, hvalue, h⟩ := bind_eq_ok.mp h
    obtain ⟨inner, hinner, h⟩ := bind_eq_ok.mp h
    exact ⟨field, operand, op', value, inner, horient, hvalue, hinner, Except.ok.inj h⟩
  · rintro ⟨field, operand, op', value, inner, horient, hvalue, hinner, rfl⟩
    rw [comparison, horient]
    apply bind_eq_ok.mpr
    refine ⟨_, rfl, bind_eq_ok.mpr ⟨value, hvalue, ?_⟩⟩
    exact bind_eq_ok.mpr ⟨inner, hinner, rfl⟩

/-! ## Calls -/

theorem ofName?_name (method : Method) : Method.ofName? method.name = some method := by
  cases method <;> decide

theorem name_of_ofName? {name : String} {method : Method} (h : Method.ofName? name = some method) :
    method.name = name := by
  simpa using List.find?_some h

theorem fieldCall_eq_ok {scope : Scope} {method : Method} {pattern : List Char → List Char}
    {receiver : Option Expr} {arguments : List Expr} {text : List Char} :
    scope.fieldCall method pattern receiver arguments = .ok text ↔
      ∃ field argument value, receiver = some (.field field) ∧ arguments = [argument] ∧
        scope.value argument = .ok value ∧
        onField field (pattern (escape value.display)) = text := by
  constructor
  · intro h
    unfold fieldCall at h
    split at h
    · rename_i field
      split at h
      · rename_i argument
        obtain ⟨value, hvalue, h⟩ := bind_eq_ok.mp h
        exact ⟨field, argument, value, rfl, rfl, hvalue, Except.ok.inj h⟩
      · exact nomatch h
    · exact nomatch h
  · rintro ⟨field, argument, value, rfl, rfl, hvalue, rfl⟩
    exact bind_eq_ok.mpr ⟨value, hvalue, rfl⟩

theorem fragmentCall_eq_ok {scope : Scope} {receiver : Option Expr} {arguments : List Expr}
    {text : List Char} :
    scope.fragmentCall receiver arguments = .ok text ↔
      ∃ field fragment value, receiver = none ∧ arguments = [.field field, fragment] ∧
        scope.value fragment = .ok value ∧
        onField field (parenthesized value.display) = text := by
  constructor
  · intro h
    unfold fragmentCall at h
    split at h
    · rename_i field fragment
      obtain ⟨value, hvalue, h⟩ := bind_eq_ok.mp h
      exact ⟨field, fragment, value, rfl, rfl, hvalue, Except.ok.inj h⟩
    · exact nomatch h
  · rintro ⟨field, fragment, value, rfl, rfl, hvalue, rfl⟩
    exact bind_eq_ok.mpr ⟨value, hvalue, rfl⟩

end Scope

end SearchQuery
