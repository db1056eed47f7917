import SearchQuery.Proofs.Emission
import SearchQuery.Proofs.PredicateTexts

/-!
# Predicates as clauses

A comparison or a call that has a clause of a query for its counterpart is written as that clause
is, up to the blanks about it.

* `equality_eq_render_term` and `ordering_eq_render_range` are what is written for a comparison, on
  whichever side its field stands.
* `Range.render_set` is a range with one bound.
* `trim_translate_eq_emit` lists the counterparts: an equality and a single value, an ordering and
  a range with one bound, a beginning, and a fragment and a match.
-/

namespace SearchQuery

open Text

/-! ## Bounds -/

/-- The bound that an ordering puts on its left operand. -/
def BinaryOp.bound? : BinaryOp → Option Bound
  | .greaterThan => some .gt
  | .greaterThanOrEqual => some .gte
  | .lessThan => some .lt
  | .lessThanOrEqual => some .lte
  | _ => none

/-- The bound of the other direction. -/
def Bound.mirrored : Bound → Bound
  | .gte => .lte
  | .gt => .lt
  | .lte => .gte
  | .lt => .gt

theorem BinaryOp.bound?_converse (op : BinaryOp) :
    op.converse.bound? = op.bound?.map Bound.mirrored := by
  cases op <;> rfl

/-- A range with one bound is written as the ordering with that bound. -/
theorem Range.render_set {op : BinaryOp} {bound : Bound} (hbound : op.bound? = some bound)
    (field value : String) :
    (Range.set { field } bound value).render =
      onField field (Scope.orderingInterval op value.toList) := by
  cases op with
  | greaterThan | greaterThanOrEqual | lessThan | lessThanOrEqual =>
    obtain rfl := Option.some.inj hbound
    rfl
  | _ => exact nomatch hbound

/-! ## Comparisons -/

namespace Expr

/-- An ordering is written with the bound that it puts on its left operand. -/
theorem render_ordering {op : BinaryOp} {bound : Bound} (hbound : op.bound? = some bound)
    (scope : Scope) (left right : Expr) :
    (binary op left right).render scope = scope.ordering op left right := by
  cases op with
  | greaterThan | greaterThanOrEqual | lessThan | lessThanOrEqual => rfl
  | _ => exact nomatch hbound

variable {scope : Scope} {field : String} {op op' : BinaryOp} {left right operand : Expr}
  {value : Literal} {text : List Char}

theorem equality_eq_render_term (horient : Scope.orient op left right = .ok (field, operand, op'))
    (hvalue : scope.value operand = .ok value) (hfield : scope.fieldType field ≠ some .numeric)
    (h : scope.equality op left right = .ok text) (fuzziness : UInt32) :
    text = (Query.term field
      (String.ofList (value.bareText (scope.fieldType field)))).render fuzziness := by
  rw [Scope.equality, Scope.comparison_of_orient horient hvalue] at h
  obtain ⟨inner, hinner, rfl⟩ := map_eq_ok.mp h
  rw [Query.render, String.toList_ofList, ← Scope.valueText_eq_escape hfield hinner]

theorem ordering_eq_render_range
    (horient : Scope.orient op left right = .ok (field, operand, op')) {bound : Bound}
    (hbound : op'.bound? = some bound) (hvalue : scope.value operand = .ok value)
    (hfield : scope.fieldType field = some .numeric ∨ scope.fieldType field = some .boolean)
    (h : scope.ordering op left right = .ok text) (fuzziness : UInt32) :
    text = (Query.range (Range.set { field } bound
      (String.ofList (value.bareText (scope.fieldType field))))).render fuzziness := by
  rw [Scope.ordering, Scope.comparison_of_orient horient hvalue] at h
  obtain ⟨inner, hinner, rfl⟩ := map_eq_ok.mp h
  rw [Query.render, Range.render_set hbound, String.toList_ofList,
    ← Scope.valueText_eq_of_declared hfield hinner]

/-! ## Calls -/

theorem render_startsWith (hvalue : scope.value operand = .ok value) (field : String)
    (fuzziness : UInt32) :
    (startsWith (.field field) operand).render scope =
      .ok ((Query.beginning field (String.ofList value.display)).render fuzziness) := by
  rw [startsWith, callOne, render, Scope.call, Scope.ofName?_name]
  refine Scope.fieldCall_eq_ok.mpr ⟨field, operand, value, rfl, rfl, hvalue, ?_⟩
  rw [Query.render, String.toList_ofList]

theorem render_satisfies (hvalue : scope.value operand = .ok value) (field : String)
    (fuzziness : UInt32) :
    (satisfies field operand).render scope =
      .ok ((Query.matching field (String.ofList value.display)).render fuzziness) := by
  rw [satisfies, render, Scope.call, Scope.ofName?_name]
  refine Scope.fragmentCall_eq_ok.mpr ⟨field, operand, value, rfl, rfl, hvalue, ?_⟩
  rw [Query.render, String.toList_ofList]

/-! ## Counterparts -/

/-- A predicate that is written like a clause has the clause's query string, up to the blanks about
it. -/
theorem trim_eq_emit {expr : Expr} {query : Query} {text : String}
    (h : expr.translate scope = .ok text)
    (hrender : ∀ chars, expr.render scope = .ok chars →
      chars = query.render standardFuzziness) :
    trim text.toList = query.emit.toList := by
  obtain ⟨chars, hchars, rfl⟩ := map_eq_ok.mp h
  rw [Query.emit, Query.toList_emitWith, Query.text, ← hrender chars hchars,
    String.toList_ofList]

theorem exists_trim_eq_emit {expr : Expr} {query : Query}
    (hrender : expr.render scope = .ok (query.render standardFuzziness)) :
    ∃ text : String, expr.translate scope = .ok text ∧ trim text.toList = query.emit.toList := by
  have htranslate : expr.translate scope =
      .ok (String.ofList (query.render standardFuzziness)) := by
    rw [translate, hrender]
    rfl
  refine ⟨_, htranslate, trim_eq_emit htranslate fun chars hchars => ?_⟩
  exact Except.ok.inj (hchars.symm.trans hrender)

/-- The counterparts of predicates about a field and a value, whatever the scope says of both.

An equality with a field that is not declared numeric is a single value.  An ordering of a field
that is declared numeric or boolean is a range with one bound, the mirrored one if the field stands
on the right.  In both the value is taken as it is before escaping.  The call of `starts_with` is a
beginning and a fragment is a match, whatever the field is declared to be; both are always
translated. -/
theorem trim_translate_eq_emit (hvalue : scope.value operand = .ok value) (field : String) :
    (scope.fieldType field ≠ some .numeric → ∀ text : String,
      (binary .equal (.field field) operand).translate scope = .ok text ∨
        (binary .equal operand (.field field)).translate scope = .ok text →
      trim text.toList = (Query.term field
        (String.ofList (value.bareText (scope.fieldType field)))).emit.toList) ∧
    (scope.fieldType field = some .numeric ∨ scope.fieldType field = some .boolean →
      ∀ op bound, op.bound? = some bound → ∀ text : String,
      ((binary op (.field field) operand).translate scope = .ok text →
        trim text.toList = (Query.range (Range.set { field } bound
          (String.ofList (value.bareText (scope.fieldType field))))).emit.toList) ∧
      ((binary op operand (.field field)).translate scope = .ok text →
        trim text.toList = (Query.range (Range.set { field } bound.mirrored
          (String.ofList (value.bareText (scope.fieldType field))))).emit.toList)) ∧
    (∃ text : String, (startsWith (.field field) operand).translate scope = .ok text ∧
      trim text.toList = (Query.beginning field (String.ofList value.display)).emit.toList) ∧
    (∃ text : String, (satisfies field operand).translate scope = .ok text ∧
      trim text.toList = (Query.matching field (String.ofList value.display)).emit.toList) := by
  have hoperand := Scope.ne_field_of_value hvalue
  refine ⟨fun hfield text h => ?_, fun hfield op bound hbound text => ⟨fun h => ?_, fun h => ?_⟩,
    ?_, ?_⟩
  · rcases h with h | h
    · refine trim_eq_emit h fun chars hchars => ?_
      exact equality_eq_render_term (Scope.orient_field_left hoperand _ field) hvalue hfield
        hchars _
    · refine trim_eq_emit h fun chars hchars => ?_
      exact equality_eq_render_term (Scope.orient_field_right hoperand _ field) hvalue hfield
        hchars _
  · refine trim_eq_emit h fun chars hchars => ?_
    rw [render_ordering hbound] at hchars
    exact ordering_eq_render_range (Scope.orient_field_left hoperand op field) hbound hvalue
      hfield hchars _
  · have hmirrored : op.converse.bound? = some bound.mirrored := by
      rw [BinaryOp.bound?_converse, hbound]
      rfl
    refine trim_eq_emit h fun chars hchars => ?_
    rw [render_ordering hbound] at hchars
    exact ordering_eq_render_range (Scope.orient_field_right hoperand op field) hmirrored hvalue
      hfield hchars _
  · exact exists_trim_eq_emit (render_startsWith hvalue field _)
  · exact exists_trim_eq_emit (render_satisfies hvalue field _)

/-- A numeric field, and a variable with a text that has blanks about it. -/
def blankScope : Scope where
  fieldType name := if name = "price" then some .numeric else none
  resolve _ := some (.text " -0 ")

/-- The blanks are kept where the text is escaped, and are gone where it is a number. -/
theorem trim_translate_eq_emit_blankScope :
    blankScope.value (.var "v") = .ok (.text " -0 ") ∧
      (binary .equal (.var "v") (.field "name")).translate blankScope = .ok "name: \\-0 " ∧
      trim "name: \\-0 ".toList = (Query.term "name" " -0 ").emit.toList ∧
      (binary .lessThan (.var "v") (.field "price")).translate blankScope =
        .ok "price:\x7b-0 TO *]" ∧
      trim "price:\x7b-0 TO *]".toList =
        (Query.range { field := "price", gt := some "-0" }).emit.toList := by
  have hvalue : blankScope.value (.var "v") = .ok (.text " -0 ") := rfl
  have hequal : (binary .equal (.var "v") (.field "name")).translate blankScope =
      .ok "name: \\-0 " := rfl
  have hless : (binary .lessThan (.var "v") (.field "price")).translate blankScope =
      .ok "price:\x7b-0 TO *]" := rfl
  refine ⟨hvalue, hequal, ?_, hless, ?_⟩
  · exact (trim_translate_eq_emit hvalue "name").1 nofun _ (.inr hequal)
  · exact ((trim_translate_eq_emit hvalue "price").2.1 (.inl rfl) .lessThan .lt rfl _).2 hless

end Expr

end SearchQuery
