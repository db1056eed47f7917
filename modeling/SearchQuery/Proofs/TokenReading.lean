import SearchQuery.Json.Token
import SearchQuery.Json.Value
import SearchQuery.Proofs.NumberText
import SearchQuery.Proofs.Outcome

/-!
# Reading tokens back

A string in its compact text and a number in any spelling are read as what they are, whatever
follows them: `afterQuote_quoted` and `numeral_append`.

* A character of a string is one step of the reader, and an escape is a step that skips the
  characters of the escape (`stringRest_quotedChar`).
* A number ends where a character stands that could not go on with it (`Delimited`).
-/

namespace SearchQuery.Json

/-! ## Strings -/

theorem stringRest_skip (purpose : Purpose) (taken done rest : List Char) :
    stringRest purpose taken.length done (taken ++ rest) = stringRest purpose 0 done rest := by
  induction taken with
  | nil => rfl
  | cons c taken ih => rw [List.length_cons, List.cons_append, stringRest, ih]

/-- After a backslash the reader goes on behind the escape. -/
theorem stringRest_of_escaped {purpose : Purpose} {taken rest : List Char} {c : Char}
    (h : escaped purpose (taken ++ rest) = .ok (c, taken.length)) (done : List Char) :
    stringRest purpose 0 done ('\\' :: (taken ++ rest)) = stringRest purpose 0 (c :: done) rest := by
  have hquote : ('\\' : Char) ≠ '"' := by decide
  rw [stringRest, if_neg hquote, if_pos rfl, h]
  exact stringRest_skip purpose taken (c :: done) rest

theorem hexUnit?_control :
    ∀ n < 32, hexUnit? ['0', '0', hexDigit (n / 16), hexDigit (n % 16)] = some n := by
  decide

/-- A control character is read from its four digits. -/
theorem escaped_control (purpose : Purpose) {c : Char} (hc : c < ' ') (rest : List Char) :
    escaped purpose (['u', '0', '0', hexDigit (c.toNat / 16), hexDigit (c.toNat % 16)] ++ rest) =
      .ok (c, 5) := by
  have hlt : c.toNat < 32 := hc
  have hdigits : hexUnit? ('0' :: '0' :: hexDigit (c.toNat / 16) :: hexDigit (c.toNat % 16) ::
      rest) = some c.toNat := hexUnit?_control c.toNat hlt
  have hsurrogate : ¬(isHighSurrogate c.toNat || isLowSurrogate c.toNat) = true := by
    simp only [isHighSurrogate, isLowSurrogate, Bool.or_eq_true, Bool.and_eq_true,
      decide_eq_true_eq]
    omega
  refine bind_eq_ok.mpr ⟨(c, 4), bind_eq_ok.mpr ⟨c.toNat, ?_, ?_⟩, rfl⟩
  · change hexUnit ('0' :: '0' :: hexDigit (c.toNat / 16) :: hexDigit (c.toNat % 16) :: rest) = _
    rw [hexUnit, hdigits]
  · rw [if_neg hsurrogate, Char.ofNat_toNat]
    rfl

/-- A character of a string is read from its text. -/
theorem stringRest_quotedChar (purpose : Purpose) (c : Char) (done rest : List Char) :
    stringRest purpose 0 done (quotedChar c ++ rest) = stringRest purpose 0 (c :: done) rest := by
  have hshort : ∀ letter char : Char, letter ≠ 'u' → shortEscapes.lookup letter = some char →
      stringRest purpose 0 done (['\\', letter] ++ rest) =
        stringRest purpose 0 (char :: done) rest := by
    intro letter char hletter hlookup
    have hescaped : escaped purpose ([letter] ++ rest) = .ok (char, [letter].length) := by
      rw [List.singleton_append, escaped, if_neg hletter, hlookup]
      rfl
    exact stringRest_of_escaped hescaped done
  unfold quotedChar
  split
  · next h => subst h; exact hshort '"' '"' (by decide) rfl
  split
  · next h => subst h; exact hshort '\\' '\\' (by decide) rfl
  split
  · next h => subst h; exact hshort 'b' '\x08' (by decide) rfl
  split
  · next h => subst h; exact hshort 't' '\t' (by decide) rfl
  split
  · next h => subst h; exact hshort 'n' '\n' (by decide) rfl
  split
  · next h => subst h; exact hshort 'f' '\x0c' (by decide) rfl
  split
  · next h => subst h; exact hshort 'r' '\r' (by decide) rfl
  split
  · next hcontrol => exact stringRest_of_escaped (escaped_control purpose hcontrol rest) done
  · next hquote hbackslash _ _ _ _ _ hcontrol =>
    rw [List.singleton_append, stringRest, if_neg hquote, if_neg hbackslash, if_neg hcontrol]

theorem stringRest_flatMap_quotedChar (purpose : Purpose) (text done rest : List Char) :
    stringRest purpose 0 done (text.flatMap quotedChar ++ '"' :: rest) =
      .ok (String.ofList (done.reverse ++ text), rest) := by
  induction text generalizing done with
  | nil => rw [List.flatMap_nil, List.nil_append, List.append_nil, stringRest, if_pos rfl]
  | cons c text ih =>
    rw [List.flatMap_cons, List.append_assoc, stringRest_quotedChar, ih, List.reverse_cons,
      List.append_assoc, List.singleton_append]

/-- A string is read from the text between its quotes. -/
theorem afterQuote_quoted (purpose : Purpose) (value : String) (rest : List Char) :
    afterQuote purpose (value.toList.flatMap quotedChar ++ '"' :: rest) = .ok (value, rest) := by
  rw [afterQuote, stringRest_flatMap_quotedChar, List.reverse_nil, List.nil_append,
    String.ofList_toList]

theorem quoted_append (value : String) (rest : List Char) :
    quoted value ++ rest = '"' :: (value.toList.flatMap quotedChar ++ '"' :: rest) := by
  simp [quoted]

/-! ## Numbers -/

/-- Whether a number could go on with the character. -/
def continuesNumber (c : Char) : Bool :=
  Number.isDigit c || c = '.' || c = 'e' || c = 'E'

/-- A number that stands before this text ends there. -/
def Delimited (rest : List Char) : Prop :=
  ∀ c ∈ rest.head?, continuesNumber c = false

theorem Delimited.ne_of_mem_head? {rest : List Char} (h : Delimited rest) {c : Char}
    (hc : c ∈ rest.head?) : Number.isDigit c = false ∧ c ≠ '.' ∧ c ≠ 'e' ∧ c ≠ 'E' := by
  have hends := h c hc
  simp only [continuesNumber, Bool.or_eq_false_iff, decide_eq_false_iff_not] at hends
  exact ⟨hends.1.1.1, hends.1.1.2, hends.1.2, hends.2⟩

theorem delimited_nil : Delimited [] := nofun

theorem delimited_cons {c : Char} (hc : continuesNumber c = false) (rest : List Char) :
    Delimited (c :: rest) := by
  intro d hd
  obtain rfl := Option.some.inj hd
  exact hc

/-- The text is made of one or more digits. -/
structure IsDigits (text : List Char) : Prop where
  ne_nil : text ≠ []
  isDigit : ∀ c ∈ text, Number.isDigit c = true

/-- What begins with digits does not begin with another character. -/
theorem IsDigits.append_ne_cons {text : List Char} (h : IsDigits text) {c : Char}
    (hc : Number.isDigit c = false) (rest more : List Char) : text ++ rest ≠ c :: more := by
  obtain ⟨d, digits, rfl⟩ := List.exists_cons_of_ne_nil h.ne_nil
  intro heq
  obtain rfl : d = c := (List.cons.inj heq).1
  exact absurd (h.isDigit d List.mem_cons_self) (by simp [hc])

theorem IsDigits.ne_cons {text : List Char} (h : IsDigits text) {c : Char}
    (hc : Number.isDigit c = false) (more : List Char) : text ≠ c :: more := by
  simpa using h.append_ne_cons hc [] more

/-- Digits end at the first other character. -/
theorem takeWhile_dropWhile_isDigit {taken rest : List Char}
    (h : ∀ c ∈ taken, Number.isDigit c = true)
    (hrest : ∀ c ∈ rest.head?, Number.isDigit c = false) :
    (taken ++ rest).takeWhile Number.isDigit = taken ∧
      (taken ++ rest).dropWhile Number.isDigit = rest := by
  have hnone : rest.takeWhile Number.isDigit = [] ∧ rest.dropWhile Number.isDigit = rest := by
    cases rest with
    | nil => exact ⟨rfl, rfl⟩
    | cons c rest =>
      have hc : Number.isDigit c = false := hrest c rfl
      simp [hc]
  constructor
  · rw [List.takeWhile_append_of_pos h, hnone.1, List.append_nil]
  · rw [List.dropWhile_append_of_pos h, hnone.2]

/-- Digits are taken up to the first other character. -/
theorem digits_append {taken rest : List Char} (h : IsDigits taken)
    (hrest : ∀ c ∈ rest.head?, Number.isDigit c = false) (purpose : Purpose) :
    digits purpose (taken ++ rest) = .ok (taken, rest) := by
  obtain ⟨htake, hdrop⟩ := takeWhile_dropWhile_isDigit h.isDigit hrest
  rw [digits, htake, hdrop]
  cases taken with
  | nil => exact absurd rfl h.ne_nil
  | cons => rfl

/-- A number as it is written: there are digits where there must be, and no zero stands in front of
other digits. -/
structure Numeral.IsWritten (n : Numeral) : Prop where
  whole : IsDigits n.whole
  leading : ∀ c more, n.whole ≠ '0' :: c :: more
  fraction : n.fraction = [] ∨ IsDigits n.fraction
  exponent : ∀ negative taken, n.exponent = some (negative, taken) → IsDigits taken

theorem wholeDigits_append {taken rest : List Char} (h : IsDigits taken)
    (hleading : ∀ c more, taken ≠ '0' :: c :: more)
    (hrest : ∀ c ∈ rest.head?, Number.isDigit c = false) (purpose : Purpose) :
    wholeDigits purpose (taken ++ rest) = .ok (taken, rest) := by
  rw [wholeDigits, digits_append h hrest]
  split
  · next heq =>
    have htaken := congrArg Prod.fst (Except.ok.inj heq)
    exact absurd htaken (hleading _ _)
  · rfl

theorem fractionDigits_append {taken rest : List Char} (h : taken = [] ∨ IsDigits taken)
    (hrest : ∀ c ∈ rest.head?, Number.isDigit c = false ∧ c ≠ '.') (purpose : Purpose) :
    fractionDigits purpose ((if taken = [] then [] else '.' :: taken) ++ rest) =
      .ok (taken, rest) := by
  rcases h with rfl | h
  · rw [if_pos rfl, List.nil_append, fractionDigits]
    rintro more rfl
    exact (hrest '.' rfl).2 rfl
  · rw [if_neg h.ne_nil, List.cons_append, fractionDigits,
      digits_append h fun c hc => (hrest c hc).1]

/-- The ways to write an exponent: its letter may be a capital one, and it may do without the sign
unless this is a minus. -/
inductive ExponentSpelling : Option (Bool × List Char) → List Char → Prop
  | none : ExponentSpelling none []
  | signed {letter : Char} (hletter : letter = 'e' ∨ letter = 'E') (negative : Bool)
      (digits : List Char) :
      ExponentSpelling (some (negative, digits))
        (letter :: (if negative then '-' else '+') :: digits)
  | unsigned {letter : Char} (hletter : letter = 'e' ∨ letter = 'E') (digits : List Char) :
      ExponentSpelling (some (false, digits)) (letter :: digits)

/-- The text of a number, with its exponent written in this way. -/
def Numeral.textWith (n : Numeral) (exponent : List Char) : List Char :=
  (if n.negative then ['-'] else []) ++ n.whole
    ++ (if n.fraction = [] then [] else '.' :: n.fraction) ++ exponent

/-- The token is a way to write the number. -/
def Numeral.Spells (n : Numeral) (token : List Char) : Prop :=
  ∃ exponent, ExponentSpelling n.exponent exponent ∧ token = n.textWith exponent

theorem Numeral.spells_text (n : Numeral) : n.Spells n.text := by
  obtain ⟨negative, whole, fraction, _ | ⟨negativeExponent, digits⟩⟩ := n
  · exact ⟨[], .none, rfl⟩
  · exact ⟨_, .signed (.inl rfl) negativeExponent digits, rfl⟩

theorem exponentDigits_append {exponent : Option (Bool × List Char)} {spelling rest : List Char}
    (hspelling : ExponentSpelling exponent spelling)
    (h : ∀ negative taken, exponent = some (negative, taken) → IsDigits taken)
    (hrest : Delimited rest) (purpose : Purpose) :
    exponentDigits purpose (spelling ++ rest) = .ok (exponent, rest) := by
  have hdigits {taken : List Char} (htaken : IsDigits taken) :
      digits purpose (taken ++ rest) = .ok (taken, rest) :=
    digits_append htaken (fun _ hc => (hrest.ne_of_mem_head? hc).1) purpose
  cases hspelling with
  | none =>
    cases rest with
    | nil => rfl
    | cons c rest =>
      have hc := (hrest.ne_of_mem_head? rfl).2.2
      rw [List.nil_append, exponentDigits, if_neg (not_or.mpr hc)]
  | signed hletter negative taken =>
    have hsign : exponentSign ((if negative then '-' else '+') :: (taken ++ rest)) =
        (negative, taken ++ rest) := by
      cases negative <;> rfl
    rw [List.cons_append, List.cons_append, exponentDigits, if_pos hletter, hsign]
    exact bind_eq_ok.mpr ⟨_, hdigits (h negative taken rfl), rfl⟩
  | unsigned hletter taken =>
    have htaken := h false taken rfl
    have hsign : exponentSign (taken ++ rest) = (false, taken ++ rest) := by
      unfold exponentSign
      split
      · next heq => exact absurd heq (htaken.append_ne_cons (by decide) _ _)
      · next heq => exact absurd heq (htaken.append_ne_cons (by decide) _ _)
      · rfl
    rw [List.cons_append, exponentDigits, if_pos hletter, hsign]
    exact bind_eq_ok.mpr ⟨_, hdigits htaken, rfl⟩

/-- A number is read part by part, if its digits do not begin with a minus sign. -/
theorem numeral_of_parts {purpose : Purpose} {n : Numeral}
    {text afterWhole afterFraction rest : List Char} (hminus : ∀ more, text ≠ '-' :: more)
    (hwhole : wholeDigits purpose text = .ok (n.whole, afterWhole))
    (hfraction : fractionDigits purpose afterWhole = .ok (n.fraction, afterFraction))
    (hexponent : exponentDigits purpose afterFraction = .ok (n.exponent, rest)) :
    numeral purpose ((if n.negative then ['-'] else []) ++ text) = .ok (n, rest) := by
  obtain ⟨negative, whole, fraction, exponent⟩ := n
  cases negative with
  | true =>
    refine bind_eq_ok.mpr ⟨_, hwhole, ?_⟩
    refine bind_eq_ok.mpr ⟨_, hfraction, ?_⟩
    exact bind_eq_ok.mpr ⟨_, hexponent, rfl⟩
  | false =>
    rw [numeral]
    · refine bind_eq_ok.mpr ⟨_, hwhole, ?_⟩
      refine bind_eq_ok.mpr ⟨_, hfraction, ?_⟩
      exact bind_eq_ok.mpr ⟨_, hexponent, rfl⟩
    · exact fun more heq => hminus more heq

/-- A number is read from every token that spells it. -/
theorem numeral_append {n : Numeral} (h : n.IsWritten) {token : List Char}
    (htoken : n.Spells token) {rest : List Char} (hrest : Delimited rest) (purpose : Purpose) :
    numeral purpose (token ++ rest) = .ok (n, rest) := by
  obtain ⟨negative, whole, fraction, exponent⟩ := n
  obtain ⟨spelling, hspelling, rfl⟩ := htoken
  -- the first character behind each part could not go on with the part
  have hexponent : ∀ c ∈ (spelling ++ rest).head?, Number.isDigit c = false ∧ c ≠ '.' := by
    intro c hc
    cases hspelling with
    | none =>
      obtain ⟨hdigit, hpoint, _⟩ := hrest.ne_of_mem_head? hc
      exact ⟨hdigit, hpoint⟩
    | signed hletter | unsigned hletter =>
      obtain rfl := Option.some.inj hc
      rcases hletter with rfl | rfl <;> decide
  have hfraction : ∀ c ∈ ((if fraction = [] then [] else '.' :: fraction) ++
      (spelling ++ rest)).head?, Number.isDigit c = false := by
    intro c hc
    split at hc
    · exact (hexponent c hc).1
    · obtain rfl := Option.some.inj hc
      decide
  have hminus : ∀ more, whole ++ ((if fraction = [] then [] else '.' :: fraction) ++
      (spelling ++ rest)) ≠ '-' :: more :=
    fun more => h.whole.append_ne_cons (by decide) _ more
  have hparts := numeral_of_parts (n := ⟨negative, whole, fraction, exponent⟩) hminus
    (wholeDigits_append h.whole h.leading hfraction purpose)
    (fractionDigits_append h.fraction hexponent purpose)
    (exponentDigits_append hspelling h.exponent hrest purpose)
  rw [← hparts, Numeral.textWith]
  simp only [List.append_assoc]

/-- A whole number as a number. -/
def Numeral.ofInt (n : Int) : Numeral where
  negative := decide (n < 0)
  whole := Number.natText n.natAbs
  fraction := []
  exponent := none

theorem Numeral.text_ofInt (n : Int) : (Numeral.ofInt n).text = Number.intText n := by
  cases n with
  | ofNat n => simp [Numeral.ofInt, Numeral.text, Number.intText]
  | negSucc n => simp [Numeral.ofInt, Numeral.text, Number.intText]

theorem Numeral.isWritten_ofInt (n : Int) : (Numeral.ofInt n).IsWritten where
  whole := ⟨Number.natText_ne_nil _, fun _ => Number.isDigit_of_mem_natText⟩
  leading c more heq := by
    have htext : Number.natText n.natAbs = '0' :: c :: more := heq
    by_cases hzero : n.natAbs = 0
    · rw [hzero, Number.natText, Nat.toDigits_zero] at htext
      exact absurd htext (by simp)
    · exact Number.head?_natText_ne hzero (by rw [htext, List.head?_cons])
  fraction := .inl rfl
  exponent := nofun

end SearchQuery.Json
