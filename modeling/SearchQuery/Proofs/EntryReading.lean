import SearchQuery.Json.Document
import SearchQuery.Proofs.TokenReading

/-!
# Reading entries back

The loops over items and members know nothing of values.  `readBack_items` and `readBack_members`
say what they make of any entries that are read back one by one.

A bracket that is nested too deep ends the reading where it stands.  `ReadBack` says what comes of
a reading under a condition: what the text stands for if the condition holds, and otherwise a
bracket that is nested too deep.  One reading after another is `ReadBack.bind`, and the loops are
read back under the condition that all entries are.
-/

namespace SearchQuery.Json

variable {α β σ : Type}

/-! ## Outcomes -/

/-- The outcome of reading a text that stands for `a` and is followed by `rest`: `a` if its
brackets fit, and else a bracket that is nested too deep. -/
inductive ReadBack (fits : Prop) (a : α) (rest : List Char) :
    Except Fault (α × List Char) → Prop where
  | taken (h : fits) : ReadBack fits a rest (.ok (a, rest))
  | tooDeep (h : ¬fits) (left : Nat) : ReadBack fits a rest (.error ⟨.tooDeep, left⟩)

/-- What the reader makes of the text, whatever ends the text. -/
def Reads (fits : Prop) (reader : Reader α) (text : List Char) (a : α) : Prop :=
  ∀ rest, Delimited rest → ReadBack fits a rest (reader (text ++ rest))

namespace ReadBack

variable {fits fits' : Prop} {a : α} {rest : List Char} {outcome : Except Fault (α × List Char)}

theorem eq_ok (h : ReadBack fits a rest outcome) (hfits : fits) : outcome = .ok (a, rest) := by
  cases h with
  | taken => rfl
  | tooDeep hnot => exact absurd hfits hnot

theorem exists_eq_tooDeep (h : ReadBack fits a rest outcome) (hnot : ¬fits) :
    ∃ left, outcome = .error ⟨.tooDeep, left⟩ := by
  cases h with
  | taken hfits => exact absurd hfits hnot
  | tooDeep _ left => exact ⟨left, rfl⟩

theorem congr (h : ReadBack fits a rest outcome) (hiff : fits ↔ fits') :
    ReadBack fits' a rest outcome := by
  cases h with
  | taken hfits => exact .taken (hiff.mp hfits)
  | tooDeep hnot left => exact .tooDeep (fun hfits => hnot (hiff.mpr hfits)) left

/-- One reading after another.  The whole fits only if its first part does. -/
theorem bind {next : α × List Char → Except Fault (β × List Char)} {b : β} {rest' : List Char}
    (h : ReadBack fits a rest outcome) (hpart : fits' → fits)
    (hnext : fits → ReadBack fits' b rest' (next (a, rest))) :
    ReadBack fits' b rest' (outcome >>= next) := by
  cases h with
  | taken hfits => exact hnext hfits
  | tooDeep hnot left => exact .tooDeep (fun hfits => hnot (hpart hfits)) left

/-- Something is made of what was read. -/
theorem map (h : ReadBack fits a rest outcome) (make : α → β) :
    ReadBack fits (make a) rest (outcome >>= fun read => .ok (make read.1, read.2)) :=
  h.bind id fun hfits => .taken hfits

end ReadBack

/-! ## Commas -/

theorem commaSeparated_cons (first : List Char) (texts : List (List Char)) :
    commaSeparated (first :: texts) = first ++ texts.flatMap (',' :: ·) := by
  induction texts generalizing first with
  | nil => simp [commaSeparated]
  | cons next texts ih =>
    rw [commaSeparated, List.intercalate_cons_cons, ← commaSeparated, ih]
    simp

/-- There is a comma between any two of the texts. -/
theorem length_le_length_commaSeparated (texts : List (List Char)) :
    texts.length ≤ (commaSeparated texts).length + 1 := by
  cases texts with
  | nil => simp
  | cons first texts =>
    rw [commaSeparated_cons]
    induction texts with
    | nil => simp
    | cons next texts ih =>
      simp only [List.length_cons, List.length_append, List.flatMap_cons] at ih ⊢
      omega

theorem skipSpaces_cons {c : Char} (hc : isSpace c = false) (text : List Char) :
    skipSpaces (c :: text) = c :: text := by
  rw [skipSpaces, List.dropWhile_cons_of_neg (by simp [hc])]

/-- A number ends before the next entry, and before the bracket behind the last one. -/
theorem delimited_entries {c : Char} (hc : continuesNumber c = false) (entries : List α)
    (text : α → List Char) (rest : List Char) :
    Delimited ((entries.flatMap fun entry => ',' :: text entry) ++ c :: rest) := by
  cases entries with
  | nil => exact delimited_cons hc rest
  | cons entry entries => exact delimited_cons (by decide) _

/-! ## Items -/

/-- The text begins as an item may: not with a space and not with the bracket that ends a list. -/
def StartsItem (text : List Char) : Prop :=
  ∃ c more, text = c :: more ∧ isSpace c = false ∧ c ≠ ']'

theorem nextItem_true {text : List Char} (h : StartsItem text) (rest : List Char) :
    nextItem true (text ++ rest) = .ok (.entry (text ++ rest)) := by
  obtain ⟨c, more, rfl, hspace, hclosing⟩ := h
  rw [List.cons_append, nextItem, skipSpaces_cons hspace]
  simp [hclosing]

theorem nextItem_comma {text : List Char} (h : StartsItem text) (rest : List Char) :
    nextItem false (',' :: (text ++ rest)) = .ok (.entry (text ++ rest)) := by
  obtain ⟨c, more, rfl, hspace, hclosing⟩ := h
  have hcomma : isSpace ',' = false := by decide
  simp [nextItem, skipSpaces_cons hcomma, skipSpaces_cons hspace, hclosing]

section Items

variable {item : Reader α} {text : α → List Char} {fits : α → Prop}

/-- One item and the items behind it. -/
theorem readBack_items_entry {a : α} {values done made : List α} {first : Bool} {steps : Nat}
    {before after rest : List Char}
    (hnext : nextItem first before = .ok (.entry (text a ++ after)))
    (hvalue : ReadBack (fits a) a after (item (text a ++ after)))
    (hrest : ReadBack (∀ b ∈ values, fits b) made rest (items item false (a :: done) steps after)) :
    ReadBack (∀ b ∈ a :: values, fits b) made rest (items item first done (steps + 1) before) := by
  rw [items, hnext]
  dsimp only
  generalize item (text a ++ after) = outcome at hvalue ⊢
  cases hvalue with
  | taken hfits => exact hrest.congr (by simp [hfits])
  | tooDeep hnot left => exact .tooDeep (fun h => hnot (h a List.mem_cons_self)) left

theorem readBack_items_next {values : List α} (hstart : ∀ a ∈ values, StartsItem (text a))
    (hread : ∀ a ∈ values, Reads (fits a) item (text a) a)
    {steps : Nat} (hsteps : values.length < steps) (done : List α) (rest : List Char) :
    ReadBack (∀ a ∈ values, fits a) (done.reverse ++ values) rest
      (items item false done steps
        ((values.flatMap fun a => ',' :: text a) ++ ']' :: rest)) := by
  induction values generalizing done steps with
  | nil =>
    obtain ⟨steps, rfl⟩ := Nat.exists_eq_succ_of_ne_zero (Nat.ne_zero_of_lt hsteps)
    rw [List.append_nil]
    exact .taken nofun
  | cons a values ih =>
    obtain ⟨steps, rfl⟩ := Nat.exists_eq_succ_of_ne_zero (Nat.ne_zero_of_lt hsteps)
    have hvalue := hread a List.mem_cons_self _
      (delimited_entries (c := ']') (by decide) values text rest)
    have hrest := ih (fun b hb => hstart b (List.mem_cons_of_mem _ hb))
      (fun b hb => hread b (List.mem_cons_of_mem _ hb)) (Nat.lt_of_succ_lt_succ hsteps) (a :: done)
    rw [List.reverse_cons, List.append_assoc, List.singleton_append] at hrest
    rw [List.flatMap_cons, List.append_assoc, List.cons_append]
    exact readBack_items_entry (nextItem_comma (hstart a List.mem_cons_self) _) hvalue hrest

/-- Items with commas between them are taken one after another. -/
theorem readBack_items {values : List α} (hstart : ∀ a ∈ values, StartsItem (text a))
    (hread : ∀ a ∈ values, Reads (fits a) item (text a) a)
    {steps : Nat} (hsteps : values.length < steps) (rest : List Char) :
    ReadBack (∀ a ∈ values, fits a) values rest
      (items item true [] steps (commaSeparated (values.map text) ++ ']' :: rest)) := by
  obtain ⟨steps, rfl⟩ := Nat.exists_eq_succ_of_ne_zero (Nat.ne_zero_of_lt hsteps)
  cases values with
  | nil => exact .taken nofun
  | cons a values =>
    have hvalue := hread a List.mem_cons_self _
      (delimited_entries (c := ']') (by decide) values text rest)
    have hrest := readBack_items_next (fun b hb => hstart b (List.mem_cons_of_mem _ hb))
      (fun b hb => hread b (List.mem_cons_of_mem _ hb)) (Nat.lt_of_succ_lt_succ hsteps) [a] rest
    rw [List.map_cons, commaSeparated_cons, List.flatMap_map, List.append_assoc]
    exact readBack_items_entry (nextItem_true (hstart a List.mem_cons_self) _) hvalue hrest

end Items

/-! ## Members -/

/-- The text of a member: its key, and what stands behind the key. -/
def memberText (key : String) (text : List Char) : List Char :=
  quoted key ++ text

theorem nextMember_true (key : String) (text rest : List Char) :
    nextMember true (memberText key text ++ rest) =
      .ok (.entry (key.toList.flatMap quotedChar ++ '"' :: (text ++ rest))) := by
  have hquote : isSpace '"' = false := by decide
  simp [nextMember, memberText, quoted, keyQuote, skipSpaces_cons hquote, Except.map]

theorem nextMember_comma (key : String) (text rest : List Char) :
    nextMember false (',' :: (memberText key text ++ rest)) =
      .ok (.entry (key.toList.flatMap quotedChar ++ '"' :: (text ++ rest))) := by
  have hcomma : isSpace ',' = false := by decide
  have hquote : isSpace '"' = false := by decide
  simp [nextMember, memberText, quoted, keyQuote, skipSpaces_cons hcomma, skipSpaces_cons hquote,
    Except.map]

section Members

variable {member : σ → String → Reader σ} {key : α → String} {text : α → List Char}
  {next : σ → α → σ} {fits : α → Prop}

/-- Every entry is read from what was made of the entries before it. -/
def ReadsInTurn (member : σ → String → Reader σ) (key : α → String) (text : α → List Char)
    (next : σ → α → σ) (fits : α → Prop) : σ → List α → Prop
  | _, [] => True
  | state, entry :: entries =>
      Reads (fits entry) (member state (key entry)) (text entry) (next state entry) ∧
        ReadsInTurn member key text next fits (next state entry) entries

/-- Entries that are read whatever was made of those before are read in turn. -/
theorem readsInTurn_of_forall {entries : List α}
    (h : ∀ entry ∈ entries, ∀ state,
      Reads (fits entry) (member state (key entry)) (text entry) (next state entry))
    (state : σ) : ReadsInTurn member key text next fits state entries := by
  induction entries generalizing state with
  | nil => exact trivial
  | cons entry entries ih =>
    exact ⟨h entry List.mem_cons_self state,
      ih (fun other hother => h other (List.mem_cons_of_mem _ hother)) (next state entry)⟩

/-- One member and the members behind it. -/
theorem readBack_members_entry {entry : α} {entries : List α} {state made : σ} {first : Bool}
    {steps : Nat} {purpose : Purpose} {before after rest : List Char}
    (hnext : nextMember first before =
      .ok (.entry ((key entry).toList.flatMap quotedChar ++ '"' :: (text entry ++ after))))
    (hentry : ReadBack (fits entry) (next state entry) after
      (member state (key entry) (text entry ++ after)))
    (hrest : ReadBack (∀ other ∈ entries, fits other) made rest
      (members purpose member false (next state entry) steps after)) :
    ReadBack (∀ other ∈ entry :: entries, fits other) made rest
      (members purpose member first state (steps + 1) before) := by
  rw [members, hnext]
  dsimp only
  rw [afterQuote_quoted]
  dsimp only
  generalize member state (key entry) (text entry ++ after) = outcome at hentry ⊢
  cases hentry with
  | taken hfits => exact hrest.congr (by simp [hfits])
  | tooDeep hnot left => exact .tooDeep (fun h => hnot (h entry List.mem_cons_self)) left

theorem readBack_members_next {entries : List α} {state : σ}
    (hread : ReadsInTurn member key text next fits state entries)
    {steps : Nat} (hsteps : entries.length < steps) (purpose : Purpose) (rest : List Char) :
    ReadBack (∀ entry ∈ entries, fits entry) (entries.foldl next state) rest
      (members purpose member false state steps
        ((entries.flatMap fun entry => ',' :: memberText (key entry) (text entry)) ++
          '}' :: rest)) := by
  induction entries generalizing state steps with
  | nil =>
    obtain ⟨steps, rfl⟩ := Nat.exists_eq_succ_of_ne_zero (Nat.ne_zero_of_lt hsteps)
    exact .taken nofun
  | cons entry entries ih =>
    obtain ⟨steps, rfl⟩ := Nat.exists_eq_succ_of_ne_zero (Nat.ne_zero_of_lt hsteps)
    have hentry := hread.1 _ (delimited_entries (c := '}') (by decide) entries
      (fun entry => memberText (key entry) (text entry)) rest)
    have hrest := ih hread.2 (Nat.lt_of_succ_lt_succ hsteps)
    rw [List.flatMap_cons, List.append_assoc, List.cons_append]
    exact readBack_members_entry (nextMember_comma _ _ _) hentry hrest

/-- Members with commas between them are taken one after another. -/
theorem readBack_members {entries : List α} {state : σ}
    (hread : ReadsInTurn member key text next fits state entries)
    {steps : Nat} (hsteps : entries.length < steps) (purpose : Purpose) (rest : List Char) :
    ReadBack (∀ entry ∈ entries, fits entry) (entries.foldl next state) rest
      (members purpose member true state steps
        (commaSeparated (entries.map fun entry => memberText (key entry) (text entry)) ++
          '}' :: rest)) := by
  obtain ⟨steps, rfl⟩ := Nat.exists_eq_succ_of_ne_zero (Nat.ne_zero_of_lt hsteps)
  cases entries with
  | nil => exact .taken nofun
  | cons entry entries =>
    have hentry := hread.1 _ (delimited_entries (c := '}') (by decide) entries
      (fun entry => memberText (key entry) (text entry)) rest)
    have hrest := readBack_members_next hread.2 (Nat.lt_of_succ_lt_succ hsteps) purpose rest
    rw [List.map_cons, commaSeparated_cons, List.flatMap_map, List.append_assoc]
    exact readBack_members_entry (nextMember_true _ _ _) hentry hrest

end Members

end SearchQuery.Json
