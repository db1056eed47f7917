import SearchQuery.Json.Document
import SearchQuery.Proofs.Outcome

/-!
# No key twice

A value that is read from a text has no object with a key twice, for a key that is repeated in the
text replaces the value that it had (`Value.hasDistinctKeys_of_read`).  Where no key stands twice,
the order of members does not tell which of them is found (`lookup_eq_of_perm`).

`Yields` says what is known of everything that a reader takes.  The loops over items and members
pass on what is known of each of them (`Yields.items`, `Yields.members`).
-/

namespace SearchQuery.Json

/-- No object inside the value has a key twice. -/
inductive Value.HasDistinctKeys : Value → Prop
  | null : HasDistinctKeys .null
  | bool (value : Bool) : HasDistinctKeys (.bool value)
  | number (text : String) : HasDistinctKeys (.number text)
  | string (value : String) : HasDistinctKeys (.string value)
  | array {items : List Value} (h : ∀ item ∈ items, HasDistinctKeys item) :
      HasDistinctKeys (.array items)
  | object {members : List (String × Value)} (hkeys : (members.map Prod.fst).Nodup)
      (h : ∀ member ∈ members, HasDistinctKeys member.2) : HasDistinctKeys (.object members)

/-! ## Searching members -/

/-- Among members with different keys it does not matter which is found first. -/
theorem lookup_eq_some_iff_mem {members : List (String × Value)}
    (hkeys : (members.map Prod.fst).Nodup) {key : String} {value : Value} :
    members.lookup key = some value ↔ (key, value) ∈ members := by
  induction members with
  | nil => simp
  | cons member members ih =>
    obtain ⟨name, other⟩ := member
    rw [List.map_cons, List.nodup_cons] at hkeys
    by_cases hname : key = name
    · subst hname
      have hnot : (key, value) ∉ members := fun hmem =>
        hkeys.1 (List.mem_map.mpr ⟨(key, value), hmem, rfl⟩)
      simp [hnot, eq_comm]
    · simp [List.lookup_cons, beq_false_of_ne hname, ih hkeys.2, hname]

theorem lookup_eq_of_perm {members members' : List (String × Value)}
    (hkeys : (members.map Prod.fst).Nodup) (h : members.Perm members') (key : String) :
    members.lookup key = members'.lookup key := by
  have hkeys' : (members'.map Prod.fst).Nodup := (h.map Prod.fst).nodup_iff.mp hkeys
  refine Option.ext fun value => ?_
  rw [lookup_eq_some_iff_mem hkeys, lookup_eq_some_iff_mem hkeys', h.mem_iff]

/-! ## Loops -/

/-- Everything that the reader takes has the property. -/
def Yields (P : α → Prop) (reader : Reader α) : Prop :=
  ∀ text a rest, reader text = .ok (a, rest) → P a

theorem Yields.items {P : α → Prop} {item : Reader α} (hitem : Yields P item) {steps : Nat}
    {first : Bool} {done : List α} (hdone : ∀ a ∈ done, P a) :
    Yields (fun values => ∀ a ∈ values, P a) (items item first done steps) := by
  induction steps generalizing first done with
  | zero => exact nofun
  | succ steps ih =>
    intro text values rest h
    rw [Json.items] at h
    split at h
    · exact nomatch h
    · obtain ⟨rfl, rfl⟩ := Prod.mk.inj (Except.ok.inj h)
      simpa using hdone
    · split at h
      · exact nomatch h
      · next value rest' hvalue =>
        exact ih (List.forall_mem_cons.mpr ⟨hitem _ _ _ hvalue, hdone⟩) _ _ _ h

theorem Yields.members {P : σ → Prop} {purpose : Purpose} {member : σ → String → Reader σ}
    (hmember : ∀ state key, P state → Yields P (member state key)) {steps : Nat} {first : Bool}
    {state : σ} (hstate : P state) : Yields P (members purpose member first state steps) := by
  induction steps generalizing first state with
  | zero => exact nofun
  | succ steps ih =>
    intro text result rest h
    rw [Json.members] at h
    split at h
    · exact nomatch h
    · obtain ⟨rfl, rfl⟩ := Prod.mk.inj (Except.ok.inj h)
      exact hstate
    · split at h
      · exact nomatch h
      · split at h
        · exact nomatch h
        · next next hnext => exact ih (hmember _ _ hstate _ _ _ hnext) _ _ _ h

/-! ## Members -/

theorem mem_put {key : String} {value : Value} {members : List (String × Value)}
    {member : String × Value} (h : member ∈ put key value members) :
    member = (key, value) ∨ member ∈ members := by
  induction members with
  | nil => exact .inl (List.mem_singleton.mp h)
  | cons first rest ih =>
    rw [put] at h
    split at h
    · exact (List.mem_cons.mp h).imp_right (List.mem_cons_of_mem _)
    · rcases List.mem_cons.mp h with rfl | h
      · exact .inr List.mem_cons_self
      · exact (ih h).imp_right (List.mem_cons_of_mem _)

theorem nodup_keys_put {members : List (String × Value)} (h : (members.map Prod.fst).Nodup)
    (key : String) (value : Value) : ((put key value members).map Prod.fst).Nodup := by
  rw [keys_put]
  split
  · exact h
  · next hnew =>
    refine List.nodup_append.mpr ⟨h, by simp, fun other hother added hadded => ?_⟩
    rw [List.mem_singleton.mp hadded]
    exact fun heq => hnew (heq ▸ hother)

theorem Value.HasDistinctKeys.put {members : List (String × Value)} {value : Value}
    (h : (Value.object members).HasDistinctKeys) (hvalue : value.HasDistinctKeys) (key : String) :
    (Value.object (put key value members)).HasDistinctKeys := by
  cases h with
  | object hkeys h =>
    refine .object (nodup_keys_put hkeys key value) fun member hmem => ?_
    rcases mem_put hmem with rfl | hmem
    · exact hvalue
    · exact h member hmem

/-! ## Values -/

theorem Yields.putMember {reader : Reader Value} (h : Yields Value.HasDistinctKeys reader)
    {members : List (String × Value)} (hmembers : (Value.object members).HasDistinctKeys)
    (key : String) :
    Yields (fun members => (Value.object members).HasDistinctKeys)
      (putMember reader members key) := by
  intro text result rest hok
  obtain ⟨text', _, hok⟩ := bind_eq_ok.mp hok
  obtain ⟨⟨value, rest'⟩, hvalue, ⟨⟩⟩ := bind_eq_ok.mp hok
  exact hmembers.put (h _ _ _ hvalue) key

theorem Yields.valueLevel {purpose : Purpose} {steps : Nat} {nested : Option (Reader Value)}
    (h : ∀ reader ∈ nested, Yields Value.HasDistinctKeys reader) :
    Yields Value.HasDistinctKeys (valueLevel purpose steps nested) := by
  intro text v rest hok
  rw [Json.valueLevel] at hok
  -- one case for each way in which a value can begin
  repeat' split at hok
  · exact nomatch hok
  · obtain ⟨_, _, ⟨⟩⟩ := bind_eq_ok.mp hok
    exact .null
  · obtain ⟨_, _, ⟨⟩⟩ := bind_eq_ok.mp hok
    exact .bool true
  · obtain ⟨_, _, ⟨⟩⟩ := bind_eq_ok.mp hok
    exact .bool false
  · obtain ⟨⟨value, _⟩, _, ⟨⟩⟩ := bind_eq_ok.mp hok
    exact .string value
  · obtain ⟨_, _, ⟨⟩⟩ := bind_eq_ok.mp hok
    exact .number _
  · exact nomatch hok
  · next nested =>
    obtain ⟨_, hitems, ⟨⟩⟩ := bind_eq_ok.mp hok
    exact .array (Yields.items (h nested rfl) (List.forall_mem_nil _) _ _ _ hitems)
  · exact nomatch hok
  · next nested =>
    obtain ⟨_, hmembers, ⟨⟩⟩ := bind_eq_ok.mp hok
    have hempty : (Value.object []).HasDistinctKeys := .object .nil (List.forall_mem_nil _)
    exact Yields.members (fun _ key hdone => (h nested rfl).putMember hdone key) hempty _ _ _
      hmembers
  · exact nomatch hok

theorem yields_value (purpose : Purpose) (steps level : Nat) :
    Yields Value.HasDistinctKeys (value purpose steps level) := by
  induction level with
  | zero => exact Yields.valueLevel nofun
  | succ level ih => exact Yields.valueLevel fun reader hreader => by cases hreader; exact ih

/-- A value that is read from a text has no object with a key twice. -/
theorem Value.hasDistinctKeys_of_read {text : List Char} {v : Value} (h : Value.read text = .ok v) :
    v.HasDistinctKeys := by
  obtain ⟨⟨result, rest⟩, hresult, h⟩ := bind_eq_ok.mp h
  dsimp only at h
  split at h
  · obtain rfl := Except.ok.inj h
    exact yields_value .value text.length maxNesting _ _ _ hresult
  · exact nomatch h

end SearchQuery.Json
