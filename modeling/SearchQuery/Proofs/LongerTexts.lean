import SearchQuery.Json.Document
import SearchQuery.Proofs.EntryReading
import SearchQuery.Proofs.LongerTokens

/-!
# Reading from longer texts

A value that is read from the front of a text is read again when more stands behind the text, if a
number would end there, and on every level on which its brackets are not too deep: `carries_value`.

The loops over items and members know nothing of values (`carries_items`, `carries_members`), and
the induction is on the level of the first reader.  Each bracket takes a level from both readers;
where the second one has none left, too many brackets are open in what was taken.
-/

namespace SearchQuery.Json

variable {α σ : Type} {purpose : Purpose} {level : Nat} {text rest more : List Char}

/-! ## Entries -/

/-- A step with more behind what it leaves. -/
def Step.append (more : List Char) : Step → Step
  | .closed rest => .closed (rest ++ more)
  | .entry text => .entry (text ++ more)

/-- What a step leaves of the text. -/
def Step.left : Step → List Char
  | .closed text | .entry text => text

/-- Where a step leads to, if entries begin at this kind of spot. -/
def Step.finish (entry : Nat → Spot) : Step → Nat → Spot
  | .closed _ => .outside
  | .entry _ => entry

section Entries

variable (level : Nat) (more : List Char)

/-- A comma and the spaces behind it. -/
theorem passes_comma {c : Char} (h : skipSpaces text = c :: rest) :
    Passes .outside .outside level (',' :: text) (c :: rest)
      (skipSpaces (text ++ more) = c :: (rest ++ more)) :=
  (passes_skipSpaces level more h).cons (by decide)

theorem passes_nextItem {first : Bool} {step : Step} (h : nextItem first text = .ok step) :
    Passes Spot.inside (step.finish Spot.inside) (level + 1) text step.left
      (nextItem first (text ++ more) = .ok (step.append more)) := by
  unfold nextItem at h ⊢
  repeat' split at h
  · cases h
  · next c rest hspaces hclosing =>
    obtain rfl := Except.ok.inj h
    have hpass := (passes_skipSpaces level more hspaces).inside
    refine (hpass.trans (Passes.closing (.inl hclosing) trivial)).imp ?_
    rintro ⟨hspaces, -⟩
    rw [hspaces]
    exact if_pos hclosing
  · next c rest hspaces hclosing hfirst =>
    obtain rfl := Except.ok.inj h
    refine (passes_skipSpaces level more hspaces).inside.imp fun hspaces => ?_
    rw [hspaces]
    dsimp only
    rw [if_neg hclosing, if_pos hfirst]
    rfl
  · cases h
  · cases h
  · next c rest hspaces hclosing hfirst hcomma _ d rest' hspaces' hentry =>
    obtain rfl := Except.ok.inj h
    subst hcomma
    have hpass := (passes_skipSpaces level more hspaces).inside
    refine (hpass.trans (passes_comma level more hspaces').inside).imp ?_
    rintro ⟨hspaces, hspaces'⟩
    rw [hspaces]
    dsimp only
    rw [if_neg hclosing, if_neg hfirst, if_pos rfl, hspaces']
    exact if_neg hentry
  · cases h

theorem keyQuote_eq_ok (h : keyQuote text = .ok rest) : text = '"' :: rest := by
  cases text with
  | nil => cases h
  | cons c text =>
    rw [keyQuote] at h
    split at h
    · next hquote => rw [hquote, Except.ok.inj h]
    · cases h

/-- Opening a key inside an object. -/
theorem passes_quote :
    Passes Spot.inside (fun depth => .quoted (depth + 1)) level ('"' :: rest) rest True :=
  Passes.of_after ['"'] (fun _ => rfl) trivial

theorem passes_nextMember {first : Bool} {step : Step} (h : nextMember first text = .ok step) :
    Passes Spot.inside (step.finish fun depth => .quoted (depth + 1)) (level + 1) text step.left
      (nextMember first (text ++ more) = .ok (step.append more)) := by
  unfold nextMember at h ⊢
  repeat' split at h
  · cases h
  · next c rest hspaces hclosing =>
    obtain rfl := Except.ok.inj h
    have hpass := (passes_skipSpaces level more hspaces).inside
    refine (hpass.trans (Passes.closing (.inr hclosing) trivial)).imp ?_
    rintro ⟨hspaces, -⟩
    rw [hspaces]
    exact if_pos hclosing
  · next c rest hspaces hclosing hfirst =>
    obtain ⟨key, hkey, rfl⟩ := map_eq_ok.mp h
    obtain ⟨rfl, rfl⟩ := List.cons.inj (keyQuote_eq_ok hkey)
    have hpass := (passes_skipSpaces level more hspaces).inside
    refine (hpass.trans (passes_quote (level + 1))).imp ?_
    rintro ⟨hspaces, -⟩
    rw [hspaces]
    exact if_pos hfirst
  · cases h
  · next c rest hspaces hclosing hfirst hcomma _ _ =>
    obtain ⟨key, hkey, rfl⟩ := map_eq_ok.mp h
    subst hcomma
    have hpass := (passes_skipSpaces level more hspaces).inside
    have hpassKey := (passes_comma level more (keyQuote_eq_ok hkey)).inside
    refine (hpass.trans (hpassKey.trans (passes_quote (level + 1)))).imp ?_
    rintro ⟨hspaces, hspaces', -⟩
    rw [hspaces]
    dsimp only
    rw [if_neg hclosing, if_neg hfirst, if_pos rfl, hspaces']
    rfl
  · cases h

theorem passes_colon (h : colon text = .ok rest) :
    Passes .outside .outside level text rest (colon (text ++ more) = .ok (rest ++ more)) := by
  unfold colon at h ⊢
  repeat' split at h
  · cases h
  · next c rest' hspaces hcolon =>
    obtain rfl := Except.ok.inj h
    subst hcolon
    have hpass := passes_skipSpaces level more hspaces
    refine (hpass.trans ((Passes.refl trivial).cons (by decide))).imp ?_
    rintro ⟨hspaces, -⟩
    rw [hspaces]
    rfl
  · cases h

end Entries

/-! ## Loops -/

section Loops

variable {steps steps' : Nat}

theorem carries_items {item item' : Reader α} (h : Carries more .outside .outside level item item')
    (hsteps : steps ≤ steps') {first : Bool} {done : List α} :
    Carries more Spot.inside .outside (level + 1) (items item first done steps)
      (items item' first done steps') := by
  induction steps generalizing steps' first done with
  | zero => exact nofun
  | succ steps ih =>
    intro text values rest hok
    obtain ⟨steps', rfl⟩ := Nat.exists_eq_succ_of_ne_zero (Nat.ne_zero_of_lt hsteps)
    rw [items] at hok
    split at hok
    · cases hok
    · next hnext =>
      obtain ⟨rfl, rfl⟩ := Prod.mk.inj (Except.ok.inj hok)
      refine (passes_nextItem level more hnext).imp fun hnext => ?_
      rw [items, hnext]
      rfl
    · next entry hnext =>
      split at hok
      · cases hok
      · next value rest' hvalue =>
        have hrest := ih (Nat.le_of_succ_le_succ hsteps) _ _ _ hok
        have hpass := (passes_nextItem level more hnext).trans
          ((h _ _ _ hvalue).inside.trans hrest)
        refine hpass.imp ?_
        rintro ⟨hnext, hvalue, hrest⟩
        rw [items, hnext]
        dsimp only [Step.append]
        rw [hvalue]
        exact hrest

theorem carries_members {member member' : σ → String → Reader σ}
    (h : ∀ state key, Carries more .outside .outside level (member state key) (member' state key))
    (hsteps : steps ≤ steps') {first : Bool} {state : σ} :
    Carries more Spot.inside .outside (level + 1) (members purpose member first state steps)
      (members purpose member' first state steps') := by
  induction steps generalizing steps' first state with
  | zero => exact nofun
  | succ steps ih =>
    intro text result rest hok
    obtain ⟨steps', rfl⟩ := Nat.exists_eq_succ_of_ne_zero (Nat.ne_zero_of_lt hsteps)
    rw [members] at hok
    split at hok
    · cases hok
    · next hnext =>
      obtain ⟨rfl, rfl⟩ := Prod.mk.inj (Except.ok.inj hok)
      refine (passes_nextMember level more hnext).imp fun hnext => ?_
      rw [members, hnext]
      rfl
    · next entry hnext =>
      split at hok
      · cases hok
      · next key afterKey hkey =>
        split at hok
        · cases hok
        · next next afterMember hmember =>
          have hrest := ih (Nat.le_of_succ_le_succ hsteps) _ _ _ hok
          have hpass := (passes_nextMember level more hnext).trans
            ((carries_afterQuote level more _ _ _ hkey).inside.trans
              ((h _ _ _ _ _ hmember).inside.trans hrest))
          refine hpass.imp ?_
          rintro ⟨hnext, hkey, hmember, hrest⟩
          rw [members, hnext]
          dsimp only [Step.append]
          rw [hkey]
          dsimp only
          rw [hmember]
          exact hrest

end Loops

theorem carries_putMember {reader reader' : Reader Value}
    (h : Carries more .outside .outside level reader reader') (done : List (String × Value))
    (key : String) :
    Carries more .outside .outside level (putMember reader done key)
      (putMember reader' done key) := by
  intro text result rest hok
  obtain ⟨afterColon, hcolon, hok⟩ := bind_eq_ok.mp hok
  obtain ⟨⟨value, rest'⟩, hvalue, ⟨⟩⟩ := bind_eq_ok.mp hok
  refine ((passes_colon level more hcolon).trans (h _ _ _ hvalue)).imp ?_
  rintro ⟨hcolon, hvalue⟩
  exact bind_eq_ok.mpr ⟨_, hcolon, bind_eq_ok.mpr ⟨_, hvalue, rfl⟩⟩

/-! ## Values -/

/-- What stands in the brackets of a value is read one level below. -/
def nestedReader (purpose : Purpose) (steps : Nat) : (level : Nat) → Option (Reader Value)
  | 0 => none
  | level + 1 => some (value purpose steps level)

theorem value_eq_valueLevel (purpose : Purpose) (steps level : Nat) :
    value purpose steps level = valueLevel purpose steps (nestedReader purpose steps level) := by
  cases level <;> rfl

/-- The spaces in front of a value do not matter. -/
theorem valueLevel_skipSpaces {steps : Nat} {nested : Option (Reader Value)} {c : Char}
    (h : skipSpaces text = c :: rest) :
    valueLevel purpose steps nested text = valueLevel purpose steps nested (c :: rest) := by
  rw [valueLevel, valueLevel, skipSpaces_cons (not_isSpace_of_skipSpaces h), h]

section Values

variable {steps steps' : Nat}

/-- What is read in brackets is read again on every level on which they are not too deep. -/
theorem passes_bracket (level : Nat) {c : Char} (hc : c = '[' ∨ c = '{')
    (read : Reader Value → Prop)
    (h : ∀ level, Passes Spot.inside .outside (level + 1) text rest
      (read (value purpose steps' level))) :
    Passes .outside .outside level (c :: text) rest
      (∃ reader, nestedReader purpose steps' level = some reader ∧ read reader) := by
  cases level with
  | zero =>
    have hpass := (h 0).mono (Nat.zero_le 1)
    exact ((Passes.opening_zero hc).trans hpass).imp fun h => h.1.elim
  | succ level =>
    exact ((Passes.opening hc trivial).trans (h level)).imp fun h => ⟨_, rfl, h.2⟩

variable (hmore : Delimited more) (hsteps : steps ≤ steps')

include hmore hsteps

/-- A value that begins with this character is read again, if what stands in its brackets is. -/
theorem passes_valueLevel {nested : Option (Reader Value)}
    (h : ∀ reader ∈ nested, ∀ level,
      Carries more .outside .outside level reader (value purpose steps' level))
    {c : Char} {v : Value} (hc : isSpace c = false)
    (hok : valueLevel purpose steps nested (c :: text) = .ok (v, rest)) :
    Passes .outside .outside level (c :: text) rest
      (valueLevel purpose steps' (nestedReader purpose steps' level) (c :: (text ++ more)) =
        .ok (v, rest ++ more)) := by
  rw [valueLevel, skipSpaces_cons hc] at hok ⊢
  dsimp only at hok ⊢
  -- one case for each way in which a value can begin
  repeat' split at hok
  · next hletter =>
    subst hletter
    obtain ⟨_, hword, ⟨⟩⟩ := bind_eq_ok.mp hok
    exact (passes_word level more 'n' (by decide) hword).imp
      fun hword => bind_eq_ok.mpr ⟨_, hword, rfl⟩
  · next hletter =>
    subst hletter
    obtain ⟨_, hword, ⟨⟩⟩ := bind_eq_ok.mp hok
    exact (passes_word level more 't' (by decide) hword).imp
      fun hword => bind_eq_ok.mpr ⟨_, hword, rfl⟩
  · next hletter =>
    subst hletter
    obtain ⟨_, hword, ⟨⟩⟩ := bind_eq_ok.mp hok
    exact (passes_word level more 'f' (by decide) hword).imp
      fun hword => bind_eq_ok.mpr ⟨_, hword, rfl⟩
  · next hquote =>
    subst hquote
    obtain ⟨⟨value, rest⟩, hstring, ⟨⟩⟩ := bind_eq_ok.mp hok
    have hopen : Passes .outside .quoted level ('"' :: text) text True :=
      Passes.of_after ['"'] (fun _ => rfl) trivial
    exact (hopen.trans (carries_afterQuote level more _ _ _ hstring)).imp
      fun h => bind_eq_ok.mpr ⟨_, h.2, rfl⟩
  · next hn ht hf hquote hnumber =>
    obtain ⟨⟨n, rest⟩, hnumeral, ⟨⟩⟩ := bind_eq_ok.mp hok
    refine (carries_numeral hmore _ _ _ hnumeral).imp fun hnumeral => ?_
    rw [if_neg hn, if_neg ht, if_neg hf, if_neg hquote, if_pos hnumber]
    exact bind_eq_ok.mpr ⟨_, hnumeral, rfl⟩
  · cases hok
  · next hbracket _ reader =>
    subst hbracket
    obtain ⟨⟨values, rest⟩, hitems, ⟨⟩⟩ := bind_eq_ok.mp hok
    have hpass := passes_bracket level (.inl rfl)
      (fun reader => items reader true [] steps' (text ++ more) = .ok (values, rest ++ more))
      fun level => carries_items (h reader rfl level) hsteps _ _ _ hitems
    refine hpass.imp ?_
    rintro ⟨reader', hreader, hitems⟩
    rw [hreader]
    exact bind_eq_ok.mpr ⟨_, hitems, rfl⟩
  · cases hok
  · next hbracket _ reader =>
    subst hbracket
    obtain ⟨⟨found, rest⟩, hmembers, ⟨⟩⟩ := bind_eq_ok.mp hok
    have hpass := passes_bracket level (.inr rfl)
      (fun reader => members purpose (putMember reader) true [] steps' (text ++ more) =
        .ok (found, rest ++ more))
      fun level => carries_members (fun done key => carries_putMember (h reader rfl level) done key)
        hsteps _ _ _ hmembers
    refine hpass.imp ?_
    rintro ⟨reader', hreader, hmembers⟩
    rw [hreader]
    exact bind_eq_ok.mpr ⟨_, hmembers, rfl⟩
  · cases hok

theorem carries_valueLevel {nested : Option (Reader Value)}
    (h : ∀ reader ∈ nested, ∀ level,
      Carries more .outside .outside level reader (value purpose steps' level)) :
    Carries more .outside .outside level (valueLevel purpose steps nested)
      (value purpose steps' level) := by
  intro text v rest hok
  cases hspaces : skipSpaces text with
  | nil =>
    rw [valueLevel, hspaces] at hok
    cases hok
  | cons c tail =>
    have hc : isSpace c = false := not_isSpace_of_skipSpaces hspaces
    rw [valueLevel_skipSpaces hspaces] at hok
    refine ((passes_skipSpaces level more hspaces).trans
      (passes_valueLevel hmore hsteps h hc hok)).imp ?_
    rintro ⟨hspaces, hread⟩
    rw [value_eq_valueLevel, valueLevel_skipSpaces hspaces]
    exact hread

/-- A value that is read from the front of a text is read again with more behind the text, on every
level on which its brackets are not too deep. -/
theorem carries_value (level level' : Nat) :
    Carries more .outside .outside level' (value purpose steps level)
      (value purpose steps' level') := by
  induction level generalizing level' with
  | zero => exact carries_valueLevel hmore hsteps nofun
  | succ level ih =>
    refine carries_valueLevel hmore hsteps fun reader hreader level' => ?_
    obtain rfl := Option.some.inj hreader
    exact ih level'

end Values

end SearchQuery.Json
