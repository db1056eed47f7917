import SearchQuery.Proofs.ValueReading

/-!
# How deep brackets nest

`Value.nesting` is the number of brackets that stand around the innermost place of a value.  It is
the least level on which the text of the value can be read (`Value.Fits.of_nesting_le`), and what
stands in brackets fits one level below them (`nesting_array_le`, `nesting_object_le`).
-/

namespace SearchQuery.Json

mutual

/-- How deep the brackets of a value nest. -/
def Value.nesting : Value → Nat
  | .array items => 1 + itemsNesting items
  | .object members => 1 + membersNesting members
  | _ => 0

/-- How deep the brackets of some values nest. -/
def itemsNesting : List Value → Nat
  | [] => 0
  | item :: rest => max item.nesting (itemsNesting rest)

/-- How deep the brackets of the values of some members nest. -/
def membersNesting : List (String × Value) → Nat
  | [] => 0
  | (_, value) :: rest => max value.nesting (membersNesting rest)

end

theorem itemsNesting_le {items : List Value} {level : Nat} :
    itemsNesting items ≤ level ↔ ∀ item ∈ items, item.nesting ≤ level := by
  induction items with
  | nil => simp [itemsNesting]
  | cons item rest ih => rw [itemsNesting, Nat.max_le, ih, List.forall_mem_cons]

theorem membersNesting_le {members : List (String × Value)} {level : Nat} :
    membersNesting members ≤ level ↔ ∀ member ∈ members, member.2.nesting ≤ level := by
  induction members with
  | nil => simp [membersNesting]
  | cons member rest ih => rw [membersNesting, Nat.max_le, ih, List.forall_mem_cons]

theorem nesting_array_le {items : List Value} {level : Nat} :
    (Value.array items).nesting ≤ level + 1 ↔ ∀ item ∈ items, item.nesting ≤ level := by
  rw [Value.nesting, Nat.add_comm 1, Nat.add_le_add_iff_right, itemsNesting_le]

theorem nesting_object_le {members : List (String × Value)} {level : Nat} :
    (Value.object members).nesting ≤ level + 1 ↔ ∀ member ∈ members, member.2.nesting ≤ level := by
  rw [Value.nesting, Nat.add_comm 1, Nat.add_le_add_iff_right, membersNesting_le]

@[simp] theorem nesting_tagged (tag : String) (body : Value) :
    (Value.tagged tag body).nesting = 1 + body.nesting := by
  simp [Value.tagged, Value.nesting, membersNesting]

theorem nesting_strings (values : List String) : (Value.strings values).nesting = 1 := by
  have hitems : itemsNesting (values.map .string) ≤ 0 :=
    itemsNesting_le.mpr fun item hmem => by
      obtain ⟨value, _, rfl⟩ := List.mem_map.mp hmem
      exact Nat.le_refl 0
  rw [Value.strings, Value.nesting, Nat.le_zero.mp hitems]

/-- A value that fits on some level fits on every level that its brackets do not exceed. -/
theorem Value.Fits.of_nesting_le {v : Value} {level level' : Nat} (h : v.Fits level)
    (hle : v.nesting ≤ level') : v.Fits level' := by
  induction h generalizing level' with
  | null => exact .null
  | bool value => exact .bool value
  | number hwritten => exact .number hwritten
  | string value => exact .string value
  | array _ ih =>
    cases level' with
    | zero => exact absurd hle (by simp [Value.nesting])
    | succ level' =>
      rw [nesting_array_le] at hle
      exact .array fun item hmem => ih item hmem (hle item hmem)
  | object hkeys _ ih =>
    cases level' with
    | zero => exact absurd hle (by simp [Value.nesting])
    | succ level' =>
      rw [nesting_object_le] at hle
      exact .object hkeys fun member hmem => ih member hmem (hle member hmem)

/-! ## Values that can be written -/

/-- The value is one that a text can have on the level that its own brackets need. -/
def Value.IsWritten (v : Value) : Prop :=
  v.Fits v.nesting

theorem Value.IsWritten.array {items : List Value} (h : ∀ item ∈ items, item.IsWritten) :
    (Value.array items).IsWritten := by
  rw [IsWritten, nesting, Nat.add_comm]
  exact .array fun item hmem =>
    (h item hmem).of_nesting_le (itemsNesting_le.mp (Nat.le_refl _) item hmem)

theorem Value.IsWritten.object {members : List (String × Value)}
    (hkeys : (members.map Prod.fst).Nodup) (h : ∀ member ∈ members, member.2.IsWritten) :
    (Value.object members).IsWritten := by
  rw [IsWritten, nesting, Nat.add_comm]
  exact .object hkeys fun member hmem =>
    (h member hmem).of_nesting_le (membersNesting_le.mp (Nat.le_refl _) member hmem)

theorem Value.IsWritten.tagged {v : Value} (h : v.IsWritten) (tag : String) :
    (Value.tagged tag v).IsWritten := by
  refine .object (by simp) fun member hmem => ?_
  obtain rfl := List.mem_singleton.mp hmem
  exact h

theorem Value.isWritten_string (value : String) : (Value.string value).IsWritten :=
  .string value

theorem Value.isWritten_int (n : Int) : (Value.int n).IsWritten :=
  fits_int n

theorem Value.isWritten_strings (values : List String) : (Value.strings values).IsWritten := by
  refine .array fun item hmem => ?_
  obtain ⟨value, _, rfl⟩ := List.mem_map.mp hmem
  exact isWritten_string value

end SearchQuery.Json
