import SearchQuery.Proofs.PredicateTexts

/-!
# Which predicates are translated

A predicate is made of atoms, joined by conjunctions and disjunctions (`Expr.atoms`).  This module
says which atoms can be translated, and what becomes of a predicate with one that cannot.

* `Scope.Accepted` is the grammar of atoms: a boolean field, a comparison of a field with a constant
  that its type admits, a call of a method.  `exists_render_eq_ok` says that the translation follows
  it, with one lemma for each part: `exists_valueText_eq_ok`, `exists_comparison_eq_ok`,
  `exists_call_eq_ok`.
* `render_eq_error_iff` says that a predicate fails as its atoms do, taken one after another.
* `translate_of_atoms` puts both together: a predicate is translated exactly if all its atoms are
  accepted, and otherwise the error is that of the first atom that is not.
-/

namespace SearchQuery

open Text

/-! ## Constants -/

/-- Whether two texts are the same but for the case of ASCII letters. -/
def Text.equalsIgnoringCase (text text' : List Char) : Bool :=
  text.map Char.toLower = text'.map Char.toLower

/-- Whether a field of this type can be compared with the constant. -/
def FieldType.admits : FieldType → Literal → Bool
  | .numeric, .integer _ => true
  | .numeric, .float value => value.isFinite
  | .numeric, .text value => Number.isFiniteDecimal (trim value.toList)
  | .boolean, .bool _ => true
  | .boolean, .text value =>
      equalsIgnoringCase value.toList "true".toList ||
        equalsIgnoringCase value.toList "false".toList
  | .text, _ | .keyword, _ => true
  | _, _ => false

namespace Scope

/-- The operand stands for the constant: it is the constant, or a variable that is bound to it. -/
inductive Denotes (scope : Scope) : Expr → Literal → Prop
  | literal (value : Literal) : Denotes scope (.literal value) value
  | var {name : String} {value : Literal} (h : scope.resolve name = some value) :
      Denotes scope (.var name) value

/-- The field has no declared type, or one that admits the constant. -/
def Admits (scope : Scope) (field : String) (value : Literal) : Prop :=
  ∀ declared, scope.fieldType field = some declared → declared.admits value = true

theorem value_eq_ok {scope : Scope} {operand : Expr} {value : Literal} :
    scope.value operand = .ok value ↔ scope.Denotes operand value := by
  constructor
  · intro h
    cases operand with
    | literal constant =>
      obtain rfl := Except.ok.inj h
      exact .literal constant
    | var name =>
      rw [Scope.value] at h
      split at h
      · next bound hbound =>
        obtain rfl := Except.ok.inj h
        exact .var hbound
      · exact nomatch h
    | field | binary | unary | call => exact nomatch h
  · intro h
    cases h with
    | literal => rfl
    | var h => rw [Scope.value, h]

theorem exists_numericText?_eq_some {value : Literal} :
    (∃ text, numericText? value = some text) ↔ FieldType.numeric.admits value = true := by
  cases value with
  | null | bool | integer => simp [numericText?, FieldType.admits]
  | float value => by_cases h : value.isFinite <;> simp [numericText?, FieldType.admits, h]
  | text value =>
    by_cases h : Number.isFiniteDecimal (trim value.toList) <;>
      simp [numericText?, FieldType.admits, h]

theorem exists_booleanText?_eq_some {value : Literal} :
    (∃ text, booleanText? value = some text) ↔ FieldType.boolean.admits value = true := by
  cases value with
  | null | bool | integer | float => simp [booleanText?, FieldType.admits]
  | text value =>
    have htrue : "true".toList.map Char.toLower = Json.boolText true := by decide
    have hfalse : "false".toList.map Char.toLower = Json.boolText false := by decide
    simp only [FieldType.admits, equalsIgnoringCase, htrue, hfalse, Bool.or_eq_true,
      decide_eq_true_eq, booleanText?]
    split <;> simp_all

theorem exists_valueText_eq_ok {scope : Scope} {field : String} {value : Literal} :
    (∃ text, scope.valueText field value = .ok text) ↔ scope.Admits field value := by
  by_cases hnumeric : scope.fieldType field = some .numeric
  · simp only [valueText_numeric hnumeric, exists_numericText?_eq_some, Admits, hnumeric,
      Option.some.injEq, forall_eq']
  by_cases hboolean : scope.fieldType field = some .boolean
  · simp only [valueText_boolean hboolean, exists_booleanText?_eq_some, Admits, hboolean,
      Option.some.injEq, forall_eq']
  · refine iff_of_true ⟨_, valueText_plain hnumeric hboolean⟩ fun declared hdeclared => ?_
    cases declared with
    | text | keyword => rfl
    | numeric => exact absurd hdeclared hnumeric
    | boolean => exact absurd hdeclared hboolean

/-! ## Comparisons -/

/-- One operand is a field, and the other stands for a constant that the field admits. -/
inductive Compares (scope : Scope) : Expr → Expr → Prop
  | fieldLeft {field : String} {operand : Expr} {value : Literal}
      (hvalue : scope.Denotes operand value) (hadmits : scope.Admits field value) :
      Compares scope (.field field) operand
  | fieldRight {field : String} {operand : Expr} {value : Literal}
      (hvalue : scope.Denotes operand value) (hadmits : scope.Admits field value) :
      Compares scope operand (.field field)

theorem exists_comparison_eq_ok {scope : Scope} {require : BinaryOp → List Char → List Char}
    {op : BinaryOp} {left right : Expr} :
    (∃ text, scope.comparison require op left right = .ok text) ↔ scope.Compares left right := by
  constructor
  · rintro ⟨text, h⟩
    obtain ⟨field, operand, op', value, inner, horient, hvalue, hinner, _⟩ := comparison_eq_ok.mp h
    have hvalue : scope.Denotes operand value := value_eq_ok.mp hvalue
    have hadmits : scope.Admits field value := exists_valueText_eq_ok.mp ⟨inner, hinner⟩
    rcases orient_eq_ok horient with ⟨rfl, rfl⟩ | ⟨rfl, rfl⟩
    · exact .fieldLeft hvalue hadmits
    · exact .fieldRight hvalue hadmits
  · intro h
    cases h with
    | @fieldLeft field _ value hvalue hadmits =>
      obtain ⟨inner, hinner⟩ := exists_valueText_eq_ok.mpr hadmits
      have hoperand := ne_field_of_value (value_eq_ok.mpr hvalue)
      exact ⟨_, comparison_eq_ok.mpr ⟨field, right, op, value, inner,
        orient_field_left hoperand op field, value_eq_ok.mpr hvalue, hinner, rfl⟩⟩
    | @fieldRight field _ value hvalue hadmits =>
      obtain ⟨inner, hinner⟩ := exists_valueText_eq_ok.mpr hadmits
      have hoperand := ne_field_of_value (value_eq_ok.mpr hvalue)
      exact ⟨_, comparison_eq_ok.mpr ⟨field, left, op.converse, value, inner,
        orient_field_right hoperand op field, value_eq_ok.mpr hvalue, hinner, rfl⟩⟩

/-! ## Calls -/

/-- A method is called on a field with one constant; a field and a fragment are given without a
receiver. -/
inductive Calls (scope : Scope) : Method → Option Expr → List Expr → Prop
  | onField {method : Method} (hmethod : method ≠ .fragment) {field : String} {argument : Expr}
      {value : Literal} (hvalue : scope.Denotes argument value) :
      Calls scope method (some (.field field)) [argument]
  | fragment {field : String} {fragment : Expr} {value : Literal}
      (hvalue : scope.Denotes fragment value) :
      Calls scope .fragment none [.field field, fragment]

theorem exists_fieldCall_eq_ok {scope : Scope} {method : Method} (hmethod : method ≠ .fragment)
    {pattern : List Char → List Char} {receiver : Option Expr} {arguments : List Expr} :
    (∃ text, scope.fieldCall method pattern receiver arguments = .ok text) ↔
      scope.Calls method receiver arguments := by
  constructor
  · rintro ⟨text, h⟩
    obtain ⟨field, argument, value, rfl, rfl, hvalue, _⟩ := fieldCall_eq_ok.mp h
    exact .onField hmethod (value_eq_ok.mp hvalue)
  · intro h
    cases h with
    | onField _ hvalue =>
      exact ⟨_, fieldCall_eq_ok.mpr ⟨_, _, _, rfl, rfl, value_eq_ok.mpr hvalue, rfl⟩⟩
    | fragment => exact absurd rfl hmethod

theorem exists_fragmentCall_eq_ok {scope : Scope} {receiver : Option Expr}
    {arguments : List Expr} :
    (∃ text, scope.fragmentCall receiver arguments = .ok text) ↔
      scope.Calls .fragment receiver arguments := by
  constructor
  · rintro ⟨text, h⟩
    obtain ⟨field, fragment, value, rfl, rfl, hvalue, _⟩ := fragmentCall_eq_ok.mp h
    exact .fragment (value_eq_ok.mp hvalue)
  · intro h
    cases h with
    | onField hmethod _ => exact absurd rfl hmethod
    | fragment hvalue =>
      exact ⟨_, fragmentCall_eq_ok.mpr ⟨_, _, _, rfl, rfl, value_eq_ok.mpr hvalue, rfl⟩⟩

theorem exists_call_eq_ok {scope : Scope} {method : Method} {receiver : Option Expr}
    {arguments : List Expr} :
    (∃ text, scope.call method.name receiver arguments = .ok text) ↔
      scope.Calls method receiver arguments := by
  rw [call, ofName?_name]
  cases method with
  | contains => exact exists_fieldCall_eq_ok (by decide)
  | startsWith => exact exists_fieldCall_eq_ok (by decide)
  | endsWith => exact exists_fieldCall_eq_ok (by decide)
  | fragment => exact exists_fragmentCall_eq_ok

end Scope

/-! ## Atoms -/

/-- Whether an operator compares its operands. -/
def BinaryOp.isComparison : BinaryOp → Bool
  | equal | notEqual | greaterThan | greaterThanOrEqual | lessThan | lessThanOrEqual => true
  | _ => false

/-- The atom can be translated. -/
inductive Scope.Accepted (scope : Scope) : Expr → Prop
  | field {name : String} (h : scope.fieldType name = some .boolean) : Accepted scope (.field name)
  | comparison {op : BinaryOp} (hop : op.isComparison = true) {left right : Expr}
      (h : scope.Compares left right) : Accepted scope (.binary op left right)
  | call {method : Method} {receiver : Option Expr} {arguments : List Expr}
      (h : scope.Calls method receiver arguments) :
      Accepted scope (.call method.name receiver arguments)

namespace Expr

/-- The parts of a predicate that its conjunctions and disjunctions join, from left to right. -/
def atoms : Expr → List Expr
  | .binary .andAlso left right => left.atoms ++ right.atoms
  | .binary .orElse left right => left.atoms ++ right.atoms
  | expr => [expr]

open Scope

theorem exists_render_binary_eq_ok {scope : Scope} {op : BinaryOp} {left right : Expr}
    (hop : op.isComparison = true) :
    (∃ text, (Expr.binary op left right).render scope = .ok text) ↔ scope.Compares left right := by
  cases op with
  | notEqual =>
    simp only [render, exists_map_eq_ok]
    exact exists_comparison_eq_ok
  | equal | greaterThan | greaterThanOrEqual | lessThan | lessThanOrEqual =>
    simp only [render]
    exact exists_comparison_eq_ok
  | andAlso | orElse | add | subtract | multiply | divide | modulo => exact nomatch hop

theorem exists_render_eq_ok {scope : Scope} {atom : Expr}
    (hand : ∀ left right, atom = .binary .andAlso left right → False)
    (hor : ∀ left right, atom = .binary .orElse left right → False) :
    (∃ text, atom.render scope = .ok text) ↔ scope.Accepted atom := by
  constructor
  · rintro ⟨text, h⟩
    cases atom with
    | field name =>
      rw [render] at h
      split at h
      · next hboolean => exact .field hboolean
      · exact nomatch h
    | binary op left right =>
      cases op with
      | andAlso => exact (hand left right rfl).elim
      | orElse => exact (hor left right rfl).elim
      | equal | notEqual | greaterThan | greaterThanOrEqual | lessThan | lessThanOrEqual =>
        exact .comparison rfl ((exists_render_binary_eq_ok rfl).mp ⟨text, h⟩)
      | add | subtract | multiply | divide | modulo => exact nomatch h
    | call name receiver arguments =>
      cases hname : Method.ofName? name with
      | none =>
        rw [render, Scope.call, hname] at h
        exact nomatch h
      | some method =>
        obtain rfl := name_of_ofName? hname
        exact .call (exists_call_eq_ok.mp ⟨text, h⟩)
    | literal | var | unary => exact nomatch h
  · intro h
    cases h with
    | field hboolean => exact ⟨_, by rw [render, if_pos hboolean]⟩
    | comparison hop h => exact (exists_render_binary_eq_ok hop).mpr h
    | call h => exact exists_call_eq_ok.mpr h

theorem exists_render_eq_ok_of_mem_atoms {scope : Scope} {expr atom : Expr}
    (h : atom ∈ expr.atoms) : (∃ text, atom.render scope = .ok text) ↔ scope.Accepted atom := by
  fun_induction atoms expr with
  | case1 left right ihleft ihright | case2 left right ihleft ihright =>
    rcases List.mem_append.mp h with hleft | hright
    · exact ihleft hleft
    · exact ihright hright
  | case3 expr hand hor =>
    obtain rfl := List.mem_singleton.mp h
    exact exists_render_eq_ok hand hor

/-! ## Predicates -/

/-- What joins two texts fails as the atoms of both do when they are taken one after another. -/
theorem joined_eq_error_iff {scope : Scope} {left right : Expr}
    (hleft : ∀ error, left.render scope = .error error ↔
      left.atoms.mapM (render scope) = .error error)
    (hright : ∀ error, right.render scope = .error error ↔
      right.atoms.mapM (render scope) = .error error)
    (join : List Char → List Char → List Char) (error : PredicateError) :
    (do return join (← left.render scope) (← right.render scope)) = Except.error error ↔
      (left.atoms ++ right.atoms).mapM (render scope) = .error error := by
  have hok : (∃ text, left.render scope = .ok text) ↔
      ∃ texts, left.atoms.mapM (render scope) = .ok texts := by
    simp only [exists_eq_ok_iff, ne_eq, hleft]
  rw [List.mapM_append, both_eq_error, both_eq_error, hleft, hright, hok]

theorem render_eq_error_iff {scope : Scope} {expr : Expr} {error : PredicateError} :
    expr.render scope = .error error ↔ expr.atoms.mapM (render scope) = .error error := by
  fun_induction atoms expr generalizing error with
  | case1 left right ihleft ihright =>
    exact joined_eq_error_iff (fun _ => ihleft) (fun _ => ihright) conjunction error
  | case2 left right ihleft ihright =>
    exact joined_eq_error_iff (fun _ => ihleft) (fun _ => ihright) disjunction error
  | case3 expr =>
    rw [List.mapM_cons, both_eq_error]
    simp [pure, Except.pure]

/-- A predicate is translated exactly if each of its atoms is accepted.  Otherwise the error is the
one that the first atom which is not accepted has by itself. -/
theorem translate_of_atoms (scope : Scope) (expr : Expr) :
    ((∃ text, expr.translate scope = .ok text) ↔ ∀ atom ∈ expr.atoms, scope.Accepted atom) ∧
      ∀ error, expr.translate scope = .error error ↔
        ∃ before atom after, expr.atoms = before ++ atom :: after ∧
          (∀ other ∈ before, scope.Accepted other) ∧ ¬scope.Accepted atom ∧
          atom.translate scope = .error error := by
  constructor
  · have hok : (∃ text, expr.render scope = .ok text) ↔
        ∃ texts, expr.atoms.mapM (render scope) = .ok texts := by
      simp only [exists_eq_ok_iff, ne_eq, render_eq_error_iff]
    rw [translate, exists_map_eq_ok, hok, exists_mapM_eq_ok]
    exact forall₂_congr fun atom hatom => exists_render_eq_ok_of_mem_atoms hatom
  · intro error
    rw [translate, map_eq_error, render_eq_error_iff, mapM_eq_error]
    constructor
    · rintro ⟨before, atom, after, hatoms, hbefore, herror⟩
      have haccepted {other : Expr} (hmem : other ∈ before ++ atom :: after) :
          (∃ text, other.render scope = .ok text) ↔ scope.Accepted other :=
        exists_render_eq_ok_of_mem_atoms (hatoms ▸ hmem)
      refine ⟨before, atom, after, hatoms, fun other hother => ?_, fun hatom => ?_, ?_⟩
      · exact (haccepted (List.mem_append_left _ hother)).mp (hbefore other hother)
      · obtain ⟨text, htext⟩ := (haccepted (List.mem_append_right _ (.head _))).mpr hatom
        exact nomatch htext.symm.trans herror
      · exact map_eq_error.mpr herror
    · rintro ⟨before, atom, after, hatoms, hbefore, _, herror⟩
      refine ⟨before, atom, after, hatoms, fun other hother => ?_, map_eq_error.mp herror⟩
      have hmem : other ∈ expr.atoms := hatoms ▸ List.mem_append_left _ hother
      exact (exists_render_eq_ok_of_mem_atoms hmem).mpr (hbefore other hother)

end Expr

end SearchQuery
