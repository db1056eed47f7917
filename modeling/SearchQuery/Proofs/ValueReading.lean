import SearchQuery.Proofs.EntryReading
import SearchQuery.Proofs.Trimming

/-!
# Reading values back

A value is read from its compact text as what it is (`Value.read_text`), if it is one that a text
can have: `Value.Fits` says that its numbers are written as numbers are, that none of its objects
has a key twice, and how deep its brackets nest.

The induction over values is `Value.Fits.value_text`.  What the loops over items and members make
of their entries is said by `readBack_items` and `readBack_members`.
-/

namespace SearchQuery.Json

/-! ## Values -/

theorem itemTexts_eq_map (items : List Value) : itemTexts items = items.map Value.text := by
  induction items with
  | nil => rfl
  | cons item rest ih => rw [itemTexts, ih, List.map_cons]

theorem memberTexts_eq_map (members : List (String × Value)) :
    memberTexts members =
      members.map fun member => memberText member.1 (':' :: member.2.text) := by
  induction members with
  | nil => rfl
  | cons member rest ih => rw [memberTexts, ih, List.map_cons, memberText]

theorem put_of_not_mem {key : String} {members : List (String × Value)}
    (h : key ∉ members.map Prod.fst) (value : Value) :
    put key value members = members ++ [(key, value)] := by
  induction members with
  | nil => rfl
  | cons member rest ih =>
    rw [List.map_cons, List.mem_cons, not_or] at h
    rw [put, if_neg (Ne.symm h.1), ih h.2, List.cons_append]

/-- Members with different keys are put one behind another. -/
theorem foldl_put {members done : List (String × Value)}
    (h : ((done ++ members).map Prod.fst).Nodup) :
    members.foldl (fun done member => put member.1 member.2 done) done = done ++ members := by
  induction members generalizing done with
  | nil => simp
  | cons member members ih =>
    have hnew : member.1 ∉ done.map Prod.fst := by
      intro hmem
      rw [List.map_append, List.nodup_append] at h
      exact h.2.2 _ hmem _ List.mem_cons_self rfl
    rw [List.foldl_cons, put_of_not_mem hnew, ih]
    · simp
    · simpa using h

/-- The value is one that a text can have: its brackets nest at most as deep as the level, its
numbers are written as numbers are, and none of its objects has a key twice. -/
inductive Value.Fits : (level : Nat) → Value → Prop
  | null {level : Nat} : Fits level .null
  | bool {level : Nat} (value : Bool) : Fits level (.bool value)
  | number {level : Nat} {n : Numeral} (h : n.IsWritten) :
      Fits level (.number (String.ofList n.text))
  | string {level : Nat} (value : String) : Fits level (.string value)
  | array {level : Nat} {items : List Value} (h : ∀ item ∈ items, Fits level item) :
      Fits (level + 1) (.array items)
  | object {level : Nat} {members : List (String × Value)}
      (hkeys : (members.map Prod.fst).Nodup) (h : ∀ member ∈ members, Fits level member.2) :
      Fits (level + 1) (.object members)

theorem Value.fits_int {level : Nat} (n : Int) : (Value.int n).Fits level := by
  rw [Value.int, ← Numeral.text_ofInt]
  exact .number (Numeral.isWritten_ofInt n)

theorem Value.Fits.tagged {level : Nat} {value : Value} (h : value.Fits level) (tag : String) :
    (Value.tagged tag value).Fits (level + 1) := by
  refine .object (by simp) fun member hmem => ?_
  obtain rfl := List.mem_singleton.mp hmem
  exact h

/-- A number begins with a minus sign or a digit. -/
theorem Numeral.IsWritten.exists_eq_cons {n : Numeral} (h : n.IsWritten) {token : List Char}
    (htoken : n.Spells token) : ∃ c more, startsNumber c = true ∧ token = c :: more := by
  obtain ⟨negative, whole, fraction, exponent⟩ := n
  obtain ⟨spelling, _, rfl⟩ := htoken
  obtain ⟨c, more, hwhole⟩ := List.exists_cons_of_ne_nil h.whole.ne_nil
  have hwhole : whole = c :: more := hwhole
  have hdigit : Number.isDigit c = true := h.whole.isDigit c (hwhole ▸ List.mem_cons_self)
  subst hwhole
  cases negative with
  | true => exact ⟨'-', _, rfl, rfl⟩
  | false => exact ⟨c, _, by simp [startsNumber, hdigit], rfl⟩

theorem ne_of_startsNumber {c d : Char} (hc : startsNumber c = true)
    (hd : startsNumber d = false) : c ≠ d := by
  rintro rfl
  exact absurd hc (by simp [hd])

theorem isSpace_of_startsNumber {c : Char} (hc : startsNumber c = true) : isSpace c = false := by
  simp [isSpace, ne_of_startsNumber hc (show startsNumber ' ' = false by decide),
    ne_of_startsNumber hc (show startsNumber '\n' = false by decide),
    ne_of_startsNumber hc (show startsNumber '\t' = false by decide),
    ne_of_startsNumber hc (show startsNumber '\r' = false by decide)]

theorem Value.Fits.startsItem {level : Nat} {value : Value} (h : value.Fits level) :
    StartsItem value.text := by
  cases h with
  | null => exact ⟨'n', _, rfl, by decide, by decide⟩
  | bool value =>
    cases value with
    | true => exact ⟨'t', _, rfl, by decide, by decide⟩
    | false => exact ⟨'f', _, rfl, by decide, by decide⟩
  | number hwritten =>
    obtain ⟨c, more, hc, htext⟩ := hwritten.exists_eq_cons (Numeral.spells_text _)
    refine ⟨c, more, ?_, isSpace_of_startsNumber hc, ne_of_startsNumber hc (by decide)⟩
    rw [Value.text, String.toList_ofList, htext]
  | string value => exact ⟨'"', _, rfl, by decide, by decide⟩
  | array => exact ⟨'[', _, rfl, by decide, by decide⟩
  | object => exact ⟨'{', _, rfl, by decide, by decide⟩

/-! ## Lengths

The text of a value is longer than that of any value inside it, and longer than the number of its
items or members: what bounds a loop over the whole text bounds all loops inside. -/

theorem length_lt_length_text_array (items : List Value) :
    items.length < (Value.array items).text.length := by
  have hcount := length_le_length_commaSeparated (items.map Value.text)
  rw [List.length_map] at hcount
  rw [Value.text, itemTexts_eq_map, List.length_cons, List.length_append, List.length_singleton]
  omega

theorem length_lt_length_text_object (members : List (String × Value)) :
    members.length < (Value.object members).text.length := by
  have hcount := length_le_length_commaSeparated (memberTexts members)
  rw [memberTexts_eq_map, List.length_map, ← memberTexts_eq_map] at hcount
  rw [Value.text, List.length_cons, List.length_append, List.length_singleton]
  omega

theorem length_text_lt_of_mem_items {items : List Value} {item : Value} (h : item ∈ items) :
    item.text.length < (Value.array items).text.length := by
  have hle : item.text.length ≤ (commaSeparated (items.map Value.text)).length :=
    Text.length_le_of_mem_intercalate (List.mem_map_of_mem h)
  rw [Value.text, itemTexts_eq_map, List.length_cons, List.length_append, List.length_singleton]
  omega

theorem length_text_lt_of_mem_members {members : List (String × Value)}
    {member : String × Value} (h : member ∈ members) :
    member.2.text.length < (Value.object members).text.length := by
  have hle : (memberText member.1 (':' :: member.2.text)).length ≤
      (commaSeparated (memberTexts members)).length := by
    rw [memberTexts_eq_map]
    exact Text.length_le_of_mem_intercalate (List.mem_map.mpr ⟨member, h, rfl⟩)
  rw [memberText, List.length_append, List.length_cons] at hle
  rw [Value.text, List.length_cons, List.length_append, List.length_singleton]
  omega

theorem length_text_lt_tagged (tag : String) (body : Value) :
    body.text.length < (Value.tagged tag body).text.length :=
  length_text_lt_of_mem_members (List.mem_singleton.mpr (rfl : (tag, body) = (tag, body)))

/-! ## Reading -/

section Levels

variable {purpose : Purpose} {steps : Nat} {nested : Option (Reader Value)} {rest : List Char}

theorem valueLevel_bool (value : Bool) :
    valueLevel purpose steps nested (boolText value ++ rest) = .ok (.bool value, rest) := by
  cases value <;> rfl

theorem valueLevel_string (value : String) :
    valueLevel purpose steps nested (quoted value ++ rest) = .ok (.string value, rest) := by
  rw [quoted_append]
  exact bind_eq_ok.mpr ⟨_, afterQuote_quoted purpose value rest, rfl⟩

theorem valueLevel_number {n : Numeral} (h : n.IsWritten) {token : List Char}
    (htoken : n.Spells token) (hrest : Delimited rest) :
    valueLevel purpose steps nested (token ++ rest) =
      .ok (.number (String.ofList n.text), rest) := by
  have hread := numeral_append h htoken hrest purpose
  obtain ⟨c, more, hc, rfl⟩ := h.exists_eq_cons htoken
  rw [List.cons_append] at hread ⊢
  rw [valueLevel, skipSpaces_cons (isSpace_of_startsNumber hc)]
  dsimp only
  rw [if_neg (ne_of_startsNumber hc (by decide)), if_neg (ne_of_startsNumber hc (by decide)),
    if_neg (ne_of_startsNumber hc (by decide)), if_neg (ne_of_startsNumber hc (by decide)),
    if_pos hc]
  exact bind_eq_ok.mpr ⟨_, hread, rfl⟩

end Levels

theorem putMember_of_read {reader : Reader Value} {text rest : List Char} {v : Value}
    (h : reader (text ++ rest) = .ok (v, rest)) (done : List (String × Value)) (key : String) :
    putMember reader done key ((':' :: text) ++ rest) = .ok (put key v done, rest) := by
  refine bind_eq_ok.mpr ⟨text ++ rest, rfl, ?_⟩
  exact bind_eq_ok.mpr ⟨_, h, rfl⟩

/-- A value is read from its text, whatever ends it.  No loop takes more steps than the text has
characters. -/
theorem Value.Fits.value_text {level : Nat} {v : Value} (h : v.Fits level) {steps : Nat}
    (hsteps : v.text.length ≤ steps) {purpose : Purpose} {rest : List Char}
    (hrest : Delimited rest) :
    value purpose steps level (v.text ++ rest) = .ok (v, rest) := by
  induction h generalizing rest with
  | @null level => cases level <;> rfl
  | @bool level b => cases level <;> exact valueLevel_bool b
  | @number level n hwritten =>
    rw [Value.text, String.toList_ofList]
    cases level <;> exact valueLevel_number hwritten n.spells_text hrest
  | @string level s => cases level <;> exact valueLevel_string s
  | @array level values hfits ih =>
    have hcount := length_lt_length_text_array values
    have hread : ∀ item ∈ values, Reads True (value purpose steps level) item.text item := by
      intro item hmem rest hrest
      have hlt := length_text_lt_of_mem_items hmem
      rw [ih item hmem (by omega) hrest]
      exact .taken trivial
    have hitems := readBack_items (fun item hmem => (hfits item hmem).startsItem) hread
      (show values.length < steps by omega) rest
    rw [Value.text, itemTexts_eq_map, List.cons_append, List.append_assoc, List.singleton_append]
    exact bind_eq_ok.mpr ⟨_, hitems.eq_ok fun _ _ => trivial, rfl⟩
  | @object level entries hkeys hfits ih =>
    have hcount := length_lt_length_text_object entries
    have hread : ∀ entry ∈ entries, ∀ done,
        Reads True (putMember (value purpose steps level) done entry.1) (':' :: entry.2.text)
          (put entry.1 entry.2 done) := by
      intro entry hmem done rest hrest
      have hlt := length_text_lt_of_mem_members hmem
      rw [putMember_of_read (ih entry hmem (by omega) hrest) done entry.1]
      exact .taken trivial
    have hmembers := readBack_members (readsInTurn_of_forall hread [])
      (show entries.length < steps by omega) purpose rest
    rw [foldl_put (by simpa using hkeys), List.nil_append, ← memberTexts_eq_map] at hmembers
    rw [Value.text, List.cons_append, List.append_assoc, List.singleton_append]
    exact bind_eq_ok.mpr ⟨_, hmembers.eq_ok fun _ _ => trivial, rfl⟩

/-- A value is read from its compact text as it is. -/
theorem Value.read_text {v : Value} (h : v.Fits maxNesting) : Value.read v.text = .ok v := by
  have hread : value .value v.text.length maxNesting (v.text ++ []) = .ok (v, []) :=
    h.value_text (Nat.le_refl _) delimited_nil
  rw [List.append_nil] at hread
  exact bind_eq_ok.mpr ⟨_, hread, rfl⟩

end SearchQuery.Json
