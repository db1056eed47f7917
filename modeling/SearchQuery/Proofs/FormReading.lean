import SearchQuery.Json.Form
import SearchQuery.Proofs.Nesting
import SearchQuery.Proofs.NumberReading

/-!
# Reading forms back

What the reader of a form makes of the compact text of a value of this form.  `Decodes` says that it
takes a certain result from the text on every level that the brackets of the value fit on, and
meets a bracket that is nested too deep on all others.

There is one law for each form.  Those of lists, records and choices ask for the laws of what stands
in their brackets on the level below only, so a reader that is built level by level is read back
level by level.
-/

namespace SearchQuery.Json

variable {α β σ : Type} {level steps : Nat}

/-- On this level the reader takes `a` from the text of `v` if the brackets of `v` fit, and meets a
bracket that is nested too deep if they do not. -/
def Decodes (level : Nat) (reader : Reader α) (v : Value) (a : α) : Prop :=
  Reads (v.nesting ≤ level) reader v.text a

theorem Decodes.map {reader : Reader α} {v : Value} {a : α} (h : Decodes level reader v a)
    (make : α → β) :
    Decodes level (fun text => do let (found, rest) ← reader text; return (make found, rest)) v
      (make a) :=
  fun rest hrest => (h rest hrest).map make

/-- A value without brackets fits on every level. -/
theorem decodes_of_eq_ok {reader : Reader α} {v : Value} {a : α} (hflat : v.nesting = 0)
    (h : ∀ rest, Delimited rest → reader (v.text ++ rest) = .ok (a, rest)) :
    Decodes level reader v a := by
  intro rest hrest
  rw [h rest hrest, hflat]
  exact .taken (Nat.zero_le level)

/-- The text of the value begins neither with a space nor as the end of a list or `null` does. -/
def IsPresent (v : Value) : Prop :=
  ∃ c more, v.text = c :: more ∧ isSpace c = false ∧ c ≠ ']' ∧ c ≠ 'n'

theorem IsPresent.startsItem {v : Value} (h : IsPresent v) : StartsItem v.text := by
  obtain ⟨c, more, htext, hspace, hclosing, _⟩ := h
  exact ⟨c, more, htext, hspace, hclosing⟩

theorem isPresent_string (value : String) : IsPresent (.string value) :=
  ⟨'"', _, rfl, by decide, by decide, by decide⟩

theorem isPresent_tagged (tag : String) (body : Value) : IsPresent (.tagged tag body) :=
  ⟨'{', _, rfl, by decide, by decide, by decide⟩

theorem text_int (n : Int) : (Value.int n).text = (Numeral.ofInt n).text := by
  rw [Value.int, Value.text, String.toList_ofList, Numeral.text_ofInt]

theorem isPresent_int (n : Int) : IsPresent (.int n) := by
  obtain ⟨c, more, hc, htext⟩ := (Numeral.isWritten_ofInt n).exists_eq_cons (Numeral.spells_text _)
  exact ⟨c, more, (text_int n).trans htext, isSpace_of_startsNumber hc,
    ne_of_startsNumber hc (by decide), ne_of_startsNumber hc (by decide)⟩

/-! ## Scalars -/

theorem decodes_stringForm (value : String) :
    Decodes level stringForm (.string value) value := by
  refine decodes_of_eq_ok rfl fun rest _ => ?_
  rw [Value.text, quoted_append]
  exact afterQuote_quoted .value value rest

theorem decodes_boolForm (value : Bool) : Decodes level boolForm (.bool value) value := by
  refine decodes_of_eq_ok rfl fun rest _ => ?_
  cases value <;> rfl

theorem decodes_optionForm {reader : Reader α} {encode : α → Value} {value : Option α}
    (hpresent : ∀ a ∈ value, IsPresent (encode a))
    (hread : ∀ a ∈ value, Decodes level reader (encode a) a) :
    Decodes level (optionForm reader) (.optional encode value) value := by
  cases value with
  | none => exact decodes_of_eq_ok rfl fun rest _ => rfl
  | some a =>
    intro rest hrest
    have hvalue := hread a rfl rest hrest
    obtain ⟨c, more, htext, hspace, _, hnull⟩ := hpresent a rfl
    change ReadBack _ _ _ (optionForm reader ((encode a).text ++ rest))
    rw [htext, List.cons_append] at hvalue ⊢
    rw [optionForm, onValue, skipSpaces_cons hspace]
    dsimp only
    rw [if_neg hnull]
    exact hvalue.map some

/-! ## Whole numbers -/

/-- Digits are accumulated to the last one, if the number fits 64 bits. -/
theorem accumulate_of_lt {n : Nat} {digits : List Char}
    (h : Number.digitsValue n digits < Nat.pow 2 64) (taken : Nat) :
    accumulate n taken digits = (Number.digitsValue n digits, taken + digits.length) := by
  induction digits generalizing n taken with
  | nil => rfl
  | cons c digits ih =>
    have hrest : Number.digitsValue (10 * n + Number.digitValue c) digits < Nat.pow 2 64 := h
    have hnext := Nat.lt_of_le_of_lt (Number.le_digitsValue _ digits) hrest
    rw [accumulate, if_pos hnext, ih hrest, List.length_cons, Nat.add_assoc, Nat.add_comm 1]
    rfl

/-- A number of 64 bits, with a sign or without one, is read as it is. -/
theorem magnitude?_ofInt {n : Int} (hlow : -9223372036854775808 ≤ n)
    (hhigh : n < 18446744073709551616) : (Numeral.ofInt n).magnitude? = some (.whole n) := by
  have hpow63 : Nat.pow 2 63 = 9223372036854775808 := rfl
  have hpow64 : Nat.pow 2 64 = 18446744073709551616 := rfl
  have hfits : Number.digitsValue 0 (Number.natText n.natAbs) < Nat.pow 2 64 := by
    rw [Number.digitsValue_natText]
    omega
  have hwhole := accumulate_of_lt hfits 0
  rw [Number.digitsValue_natText, Nat.zero_add] at hwhole
  have hsign : (!decide (n < 0)) = true ∨ 0 < n.natAbs ∧ n.natAbs ≤ Nat.pow 2 63 := by
    by_cases hneg : n < 0
    · exact .inr ⟨by omega, by omega⟩
    · exact .inl (by simp [hneg])
  simp only [Numeral.magnitude?, Numeral.ofInt, hwhole]
  rw [if_pos ⟨trivial, trivial, trivial, by simpa using hsign⟩]
  by_cases hneg : n < 0
  · simp only [hneg, decide_true, if_true]
    congr 2
    omega
  · simp only [hneg, decide_false, Bool.false_eq_true, if_false]
    congr 2
    omega

theorem decodes_wholeForm {narrow? : Int → Option α} {n : Int} {a : α}
    (hlow : -9223372036854775808 ≤ n) (hhigh : n < 18446744073709551616)
    (h : narrow? n = some a) :
    Decodes level (wholeForm narrow?) (.int n) a := by
  refine decodes_of_eq_ok rfl fun rest hrest => ?_
  have hnumeral := numeral_append (Numeral.isWritten_ofInt n) (Numeral.spells_text _) hrest .value
  obtain ⟨c, more, hc, htext⟩ := (Numeral.isWritten_ofInt n).exists_eq_cons (Numeral.spells_text _)
  have hnumber : numberForm ((Value.int n).text ++ rest) = .ok (.whole n, rest) := by
    rw [text_int]
    rw [htext, List.cons_append] at hnumeral ⊢
    rw [numberForm, onValue, skipSpaces_cons (isSpace_of_startsNumber hc)]
    dsimp only
    rw [if_pos hc]
    refine bind_eq_ok.mpr ⟨_, hnumeral, ?_⟩
    rw [magnitude?_ofInt hlow hhigh]
    rfl
  refine bind_eq_ok.mpr ⟨_, hnumber, ?_⟩
  dsimp only
  rw [h]
  rfl

/-! ## Lists -/

theorem decodes_listForm {item : Nat → Reader α} {encode : α → Value} {values : List α}
    (hsteps : (Value.array (values.map encode)).text.length ≤ steps)
    (hpresent : ∀ a ∈ values, IsPresent (encode a))
    (hread : ∀ below, level = below + 1 → ∀ a ∈ values, Decodes below (item below) (encode a) a) :
    Decodes level (listForm steps item level) (.array (values.map encode)) values := by
  intro rest hrest
  have hcount := length_lt_length_text_array (values.map encode)
  rw [List.length_map] at hcount
  rw [Value.text, List.cons_append, List.append_assoc, List.singleton_append, itemTexts_eq_map,
    List.map_map]
  cases level with
  | zero => exact .tooDeep (by simp [Value.nesting]) _
  | succ below =>
    have hitems := readBack_items (fun a hmem => (hpresent a hmem).startsItem) (hread below rfl)
      (show values.length < steps by omega) rest
    refine hitems.congr ?_
    rw [nesting_array_le, List.forall_mem_map]

/-! ## Records -/

/-- A field as it stands in a text, with the value it has there and what that makes of a record. -/
structure WrittenField (σ : Type) where
  field : RecordField σ
  value : Value
  set : σ → σ

/-- The object that holds the fields. -/
def recordValue (written : List (WrittenField σ)) : Value :=
  .object (written.map fun entry => (entry.field.name, entry.value))

theorem length_text_lt_of_mem_written {written : List (WrittenField σ)} {entry : WrittenField σ}
    (h : entry ∈ written) : entry.value.text.length < (recordValue written).text.length := by
  have hmem : (entry.field.name, entry.value) ∈
      written.map fun entry => (entry.field.name, entry.value) :=
    List.mem_map.mpr ⟨entry, h, rfl⟩
  exact length_text_lt_of_mem_members hmem

theorem find?_name {fields : List (RecordField σ)} (hnames : (fields.map (·.name)).Nodup)
    {field : RecordField σ} (hmem : field ∈ fields) :
    fields.find? (·.name = field.name) = some field := by
  induction fields with
  | nil => exact nomatch hmem
  | cons first fields ih =>
    rw [List.map_cons, List.nodup_cons] at hnames
    rcases List.mem_cons.mp hmem with rfl | hmem
    · exact List.find?_cons_of_pos (by simp)
    · have hne : first.name ≠ field.name := fun heq =>
        hnames.1 (heq ▸ List.mem_map_of_mem hmem)
      rw [List.find?_cons_of_neg (by simp [hne]), ih hnames.2 hmem]

/-- Fields with different names are read in turn. -/
theorem readsInTurn_member {form : RecordForm σ α} {written : List (WrittenField σ)}
    (hfields : (form.fields.map (·.name)).Nodup)
    (hmem : ∀ entry ∈ written, entry.field ∈ form.fields)
    (hread : ∀ entry ∈ written, ∀ state,
      Decodes level (entry.field.read level state) entry.value (entry.set state))
    (hnames : (written.map (·.field.name)).Nodup) {seen : List String}
    (hseen : ∀ entry ∈ written, entry.field.name ∉ seen) (state : σ) :
    ReadsInTurn (form.member steps level) (·.field.name) (fun entry => ':' :: entry.value.text)
      (fun state entry => (entry.field.name :: state.1, entry.set state.2))
      (fun entry => entry.value.nesting ≤ level) (seen, state) written := by
  induction written generalizing seen state with
  | nil => exact trivial
  | cons entry written ih =>
    rw [List.map_cons, List.nodup_cons] at hnames
    constructor
    · intro rest hrest
      have hnew : entry.field.name ∉ seen := hseen entry List.mem_cons_self
      have hvalue := hread entry List.mem_cons_self state rest hrest
      rw [RecordForm.member, find?_name hfields (hmem entry List.mem_cons_self)]
      dsimp only
      rw [if_neg hnew]
      exact hvalue.map fun record => (entry.field.name :: seen, record)
    · refine ih (fun other hother => hmem other (List.mem_cons_of_mem _ hother))
        (fun other hother => hread other (List.mem_cons_of_mem _ hother)) hnames.2
        (fun other hother => ?_) (entry.set state)
      rw [List.mem_cons, not_or]
      refine ⟨fun heq => hnames.1 (heq ▸ List.mem_map_of_mem hother), ?_⟩
      exact hseen other (List.mem_cons_of_mem _ hother)

theorem foldl_set_snd (written : List (WrittenField σ)) (seen : List String) (state : σ) :
    (written.foldl (fun state entry => (entry.field.name :: state.1, entry.set state.2))
      (seen, state)).2 = written.foldl (fun state entry => entry.set state) state := by
  induction written generalizing seen state with
  | nil => rfl
  | cons entry written ih => exact ih _ _

/-- A record is read from an object that holds all its fields in order. -/
theorem decodes_record {form : RecordForm σ α} {written : List (WrittenField σ)} {a : α}
    (hfields : form.fields = written.map (·.field)) (hnames : (form.fields.map (·.name)).Nodup)
    (hsteps : (recordValue written).text.length ≤ steps)
    (hread : ∀ below, level = below + 1 → ∀ entry ∈ written, ∀ state,
      Decodes below (entry.field.read below state) entry.value (entry.set state))
    (hfinish : form.finish (written.foldl (fun state entry => entry.set state) form.empty) =
      some a) :
    Decodes level (form.read steps level) (recordValue written) a := by
  intro rest hrest
  have hcount := length_lt_length_text_object
    (written.map fun entry => (entry.field.name, entry.value))
  rw [List.length_map] at hcount
  rw [recordValue] at hsteps
  rw [recordValue, Value.text, List.cons_append, List.append_assoc, List.singleton_append,
    memberTexts_eq_map, List.map_map]
  cases level with
  | zero => exact .tooDeep (by simp [Value.nesting]) _
  | succ below =>
    have hwritten : (written.map (·.field.name)).Nodup := by
      rw [hfields, List.map_map] at hnames
      exact hnames
    have hturn : ReadsInTurn (form.member steps below) _ _ _ _ ([], form.empty) written :=
      readsInTurn_member hnames (fun entry hmem => hfields ▸ List.mem_map_of_mem hmem)
        (hread below rfl) hwritten (fun entry _ => List.not_mem_nil) form.empty
    have hmembers := readBack_members hturn (show written.length < steps by omega) .value rest
    have hfits : (∀ entry ∈ written, entry.value.nesting ≤ below) ↔
        (recordValue written).nesting ≤ below + 1 := by
      rw [recordValue, nesting_object_le, List.forall_mem_map]
    -- the names that were seen are dropped, and the record is finished
    refine ReadBack.bind ((hmembers.congr hfits).map Prod.snd) id fun hfits => ?_
    dsimp only
    rw [foldl_set_snd, hfinish]
    exact .taken hfits

/-! ## Choices -/

section Choices

variable {alternative? : String → Option (Alternative α)} {tag : String} {a : α}

/-- A bare alternative is read from its tag. -/
theorem decodes_choiceForm_bare (h : alternative? tag = some (.bare a)) :
    Decodes level (choiceForm alternative? level) (.string tag) a := by
  refine decodes_of_eq_ok rfl fun rest _ => ?_
  rw [Value.text, quoted_append]
  refine bind_eq_ok.mpr ⟨_, afterQuote_quoted .value tag rest, ?_⟩
  dsimp only
  rw [h]
  rfl

/-- An alternative with a body is read from the object with its tag. -/
theorem decodes_choiceForm_tagged {body : Nat → Reader α} {v : Value}
    (h : alternative? tag = some (.tagged body))
    (hread : ∀ below, level = below + 1 → Decodes below (body below) v a) :
    Decodes level (choiceForm alternative? level) (.tagged tag v) a := by
  intro rest hrest
  have htext : (Value.tagged tag v).text ++ rest =
      '{' :: (quoted tag ++ ':' :: (v.text ++ '}' :: rest)) := by
    simp [Value.tagged, Value.text, memberTexts, commaSeparated]
  rw [htext, quoted_append]
  cases level with
  | zero => exact .tooDeep (by simp) _
  | succ below =>
    have hbody := hread below rfl ('}' :: rest) (delimited_cons (by decide) rest)
    have hfits : v.nesting ≤ below ↔ (Value.tagged tag v).nesting ≤ below + 1 := by
      rw [nesting_tagged]
      omega
    have htagged : taggedForm alternative? below
        ('"' :: (tag.toList.flatMap quotedChar ++ '"' :: ':' :: (v.text ++ '}' :: rest))) =
        (do
          let (found, rest) ← body below (v.text ++ '}' :: rest)
          return (found, ← closeTagged rest)) := by
      change (afterQuote .value _ >>= _) = _
      rw [afterQuote_quoted, ok_bind]
      dsimp only
      rw [h]
      rfl
    change ReadBack _ _ _ (taggedForm alternative? below _)
    rw [htagged]
    exact (hbody.congr hfits).bind id fun hfits => .taken hfits

end Choices

/-! ## Texts -/

/-- A text is read as a whole if its brackets nest as deep as they may, and is refused if they nest
deeper. -/
theorem readForm_text {reader : (steps level : Nat) → Reader α} {v : Value} {a : α}
    (h : Decodes maxNesting (reader v.text.length maxNesting) v a) :
    (v.nesting ≤ maxNesting → readForm reader v.text = .ok a) ∧
      (maxNesting < v.nesting → ∃ left, readForm reader v.text = .error ⟨.tooDeep, left⟩) := by
  have hread := h [] delimited_nil
  rw [List.append_nil] at hread
  constructor
  · intro hfits
    exact bind_eq_ok.mpr ⟨_, hread.eq_ok hfits, rfl⟩
  · intro hdeep
    obtain ⟨left, herror⟩ := hread.exists_eq_tooDeep (Nat.not_le.mpr hdeep)
    refine ⟨left, ?_⟩
    rw [readForm, readAll, herror]
    rfl

end SearchQuery.Json
