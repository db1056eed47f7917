import SearchQuery.Proofs.OpenBrackets
import SearchQuery.Proofs.TokenReading

/-!
# Tokens of longer texts

A token that is read from the front of a text is read again when more stands behind the text:
`carries_numeral` and `carries_afterQuote`.  A number has to end where the text ended, so what is
put behind it must not go on with it (`Delimited`).  An escape is read without a look at what
follows its characters.

The characters that are taken are scanned for brackets at the same time.  Spaces, words and numbers
have none of the marks, and a string leaves the scan outside of strings where its reader is behind
the closing quote.
-/

namespace SearchQuery.Json

variable {α : Type} {purpose : Purpose} {text rest : List Char}

/-- What the first reader takes from a text, the second takes from it with `more` behind it, if at
most `level` more brackets are open on the way. -/
def Carries (more : List Char) (start finish : Nat → Spot) (level : Nat)
    (reader reader' : Reader α) : Prop :=
  ∀ text a rest, reader text = .ok (a, rest) →
    Passes start finish level text rest (reader' (text ++ more) = .ok (a, rest ++ more))

/-! ## Spaces and words -/

theorem not_isSpace_of_skipSpaces {c : Char} (h : skipSpaces text = c :: rest) :
    isSpace c = false := by
  have hhead := List.head?_dropWhile_not isSpace text
  rw [← skipSpaces, h] at hhead
  exact hhead

theorem eq_append_of_letters {word : List Char} (h : letters word text = .ok ((), rest)) :
    text = word ++ rest := by
  induction word generalizing text with
  | nil => exact congrArg Prod.snd (Except.ok.inj h)
  | cons letter word ih =>
    cases text with
    | nil => cases h
    | cons c text =>
      rw [letters] at h
      split at h
      · next hc => rw [hc, ih h, List.cons_append]
      · cases h

theorem letters_append (word rest : List Char) : letters word (word ++ rest) = .ok ((), rest) := by
  induction word with
  | nil => rfl
  | cons letter word ih => rw [List.cons_append, letters, if_pos rfl, ih]

section Words

variable (level : Nat) (more : List Char)

theorem passes_skipSpaces {c : Char} (h : skipSpaces text = c :: rest) :
    Passes .outside .outside level text (c :: rest)
      (skipSpaces (text ++ more) = c :: (rest ++ more)) := by
  have hspaces : ∀ d ∈ text.takeWhile isSpace, d ∉ marks :=
    not_mem_marks (by decide) (List.all_eq_true.mp List.all_takeWhile)
  have htext : text.takeWhile isSpace ++ c :: rest = text := by
    rw [← h, skipSpaces, List.takeWhile_append_dropWhile]
  have hlonger : skipSpaces (text ++ more) = c :: (rest ++ more) := by
    rw [skipSpaces] at h ⊢
    rw [List.dropWhile_append, h]
    rfl
  have hpass : Passes .outside .outside level (text.takeWhile isSpace ++ c :: rest) (c :: rest)
      (skipSpaces (text ++ more) = c :: (rest ++ more)) := Passes.outside hspaces hlonger
  rwa [htext] at hpass

/-- A word is known by its first letter, and the others are taken. -/
theorem passes_word (letter : Char) {word : List Char}
    (hmarks : (letter :: word).any marks.contains = false)
    (h : letters word text = .ok ((), rest)) :
    Passes .outside .outside level (letter :: text) rest
      (letters word (text ++ more) = .ok ((), rest ++ more)) := by
  obtain rfl := eq_append_of_letters h
  have hplain : ∀ c ∈ letter :: word, c ∉ marks := by simpa using hmarks
  refine Passes.outside hplain ?_
  rw [List.append_assoc, letters_append]

end Words

/-! ## Numbers -/

theorem digits_eq_ok {taken : List Char} (h : digits purpose text = .ok (taken, rest)) :
    IsDigits taken ∧ text = taken ++ rest ∧ ∀ c ∈ rest.head?, Number.isDigit c = false := by
  have hparts := List.takeWhile_append_dropWhile (p := Number.isDigit) (l := text)
  have hhead := List.head?_dropWhile_not Number.isDigit text
  rw [digits] at h
  split at h
  · cases h
  · next hne =>
    obtain ⟨rfl, rfl⟩ := Prod.mk.inj (Except.ok.inj h)
    refine ⟨⟨hne, List.all_eq_true.mp List.all_takeWhile⟩, hparts.symm, fun c hc => ?_⟩
    rw [hc] at hhead
    exact hhead

theorem wholeDigits_eq_ok {taken : List Char} (h : wholeDigits purpose text = .ok (taken, rest)) :
    digits purpose text = .ok (taken, rest) ∧ ∀ c more, taken ≠ '0' :: c :: more := by
  rw [wholeDigits] at h
  split at h
  · cases h
  · next hleading =>
    refine ⟨h, ?_⟩
    rintro c more rfl
    exact hleading c more rest h

/-- Digits do not begin with a minus sign. -/
theorem ne_minus_of_wholeDigits {result : List Char × List Char}
    (h : wholeDigits purpose text = .ok result) (more : List Char) : text ≠ '-' :: more := by
  obtain ⟨htaken, rfl, _⟩ := digits_eq_ok (wholeDigits_eq_ok h).1
  exact htaken.append_ne_cons (by decide) _ more

/-- A number is taken part by part. -/
theorem numeral_eq_ok {n : Numeral} (h : numeral purpose text = .ok (n, rest)) :
    ∃ unsigned afterWhole afterFraction,
      text = (if n.negative then ['-'] else []) ++ unsigned ∧
        wholeDigits purpose unsigned = .ok (n.whole, afterWhole) ∧
        fractionDigits purpose afterWhole = .ok (n.fraction, afterFraction) ∧
        exponentDigits purpose afterFraction = .ok (n.exponent, rest) := by
  by_cases hminus : ∃ unsigned, text = '-' :: unsigned
  · obtain ⟨unsigned, rfl⟩ := hminus
    obtain ⟨⟨whole, afterWhole⟩, hwhole, h⟩ := bind_eq_ok.mp h
    obtain ⟨⟨fraction, afterFraction⟩, hfraction, h⟩ := bind_eq_ok.mp h
    obtain ⟨⟨exponent, _⟩, hexponent, ⟨⟩⟩ := bind_eq_ok.mp h
    exact ⟨unsigned, afterWhole, afterFraction, rfl, hwhole, hfraction, hexponent⟩
  · rw [numeral] at h
    · obtain ⟨⟨whole, afterWhole⟩, hwhole, h⟩ := bind_eq_ok.mp h
      obtain ⟨⟨fraction, afterFraction⟩, hfraction, h⟩ := bind_eq_ok.mp h
      obtain ⟨⟨exponent, _⟩, hexponent, ⟨⟩⟩ := bind_eq_ok.mp h
      exact ⟨text, afterWhole, afterFraction, rfl, hwhole, hfraction, hexponent⟩
    · exact fun unsigned heq => hminus ⟨unsigned, heq⟩

/-- A digit is no mark. -/
theorem IsDigits.not_mem_marks {taken : List Char} (h : IsDigits taken) :
    ∀ c ∈ taken, c ∉ marks :=
  Json.not_mem_marks (by decide) h.isDigit

/-- The sign of an exponent is the same, as it is behind the letter and not at the end. -/
theorem passes_exponentSign (level : Nat) (more : List Char) {c : Char} {negative : Bool}
    (h : exponentSign text = (negative, c :: rest)) :
    Passes .outside .outside level text (c :: rest)
      (exponentSign (text ++ more) = (negative, c :: (rest ++ more))) := by
  unfold exponentSign at h
  split at h
  · obtain ⟨rfl, rfl⟩ := Prod.mk.inj h
    exact (Passes.refl rfl).cons (by decide)
  · obtain ⟨rfl, rfl⟩ := Prod.mk.inj h
    exact (Passes.refl rfl).cons (by decide)
  · next hminus hplus =>
    obtain ⟨rfl, rfl⟩ := Prod.mk.inj h
    refine Passes.refl ?_
    rw [List.cons_append, exponentSign]
    · exact fun rest heq => hminus _ (congrArg (· :: _) (List.cons.inj heq).1)
    · exact fun rest heq => hplus _ (congrArg (· :: _) (List.cons.inj heq).1)

section Numbers

variable {level : Nat} {more : List Char} (hmore : Delimited more)

include hmore

/-- Digits that end before `rest` end there with `more` behind it. -/
theorem isDigit_head?_append (h : ∀ c ∈ rest.head?, Number.isDigit c = false) :
    ∀ c ∈ (rest ++ more).head?, Number.isDigit c = false := by
  cases rest with
  | nil => exact fun c hc => (hmore.ne_of_mem_head? hc).1
  | cons d rest => exact h

theorem carries_digits :
    Carries more .outside .outside level (digits purpose) (digits purpose) := by
  intro text taken rest hok
  obtain ⟨htaken, rfl, hhead⟩ := digits_eq_ok hok
  refine Passes.outside htaken.not_mem_marks ?_
  rw [List.append_assoc]
  exact digits_append htaken (isDigit_head?_append hmore hhead) purpose

theorem carries_wholeDigits :
    Carries more .outside .outside level (wholeDigits purpose) (wholeDigits purpose) := by
  intro text taken rest hok
  obtain ⟨hdigits, hleading⟩ := wholeDigits_eq_ok hok
  obtain ⟨htaken, rfl, hhead⟩ := digits_eq_ok hdigits
  refine Passes.outside htaken.not_mem_marks ?_
  rw [List.append_assoc]
  exact wholeDigits_append htaken hleading (isDigit_head?_append hmore hhead) purpose

theorem carries_fractionDigits :
    Carries more .outside .outside level (fractionDigits purpose) (fractionDigits purpose) := by
  intro text taken rest hok
  unfold fractionDigits at hok
  split at hok
  · exact (carries_digits hmore _ _ _ hok).cons (by decide)
  · next hpoint =>
    obtain ⟨rfl, rfl⟩ := Prod.mk.inj (Except.ok.inj hok)
    refine Passes.refl ?_
    rw [fractionDigits]
    intro rest heq
    cases text with
    | nil =>
      have hhead : '.' ∈ more.head? := congrArg List.head? heq
      exact (hmore.ne_of_mem_head? hhead).2.1 rfl
    | cons c text => exact hpoint text (congrArg (· :: text) (List.cons.inj heq).1)

theorem carries_exponentDigits :
    Carries more .outside .outside level (exponentDigits purpose) (exponentDigits purpose) := by
  intro text exponent rest hok
  cases text with
  | nil =>
    obtain ⟨rfl, rfl⟩ := Prod.mk.inj (Except.ok.inj hok)
    refine Passes.refl ?_
    rw [List.nil_append]
    cases more with
    | nil => rfl
    | cons d more =>
      have hletter := (hmore.ne_of_mem_head? rfl).2.2
      rw [exponentDigits, if_neg (not_or.mpr hletter)]
  | cons c text =>
    rw [exponentDigits] at hok
    split at hok
    · next hletter =>
      generalize hsign : exponentSign text = sign at hok
      obtain ⟨negative, unsigned⟩ := sign
      obtain ⟨⟨taken, rest'⟩, htaken, ⟨⟩⟩ := bind_eq_ok.mp hok
      cases unsigned with
      | nil => cases htaken
      | cons d unsigned =>
        have hparts := (passes_exponentSign level more hsign).trans
          (carries_digits hmore _ _ _ htaken)
        have hmark : c ∉ marks := by rcases hletter with rfl | rfl <;> decide
        refine (hparts.cons hmark).imp ?_
        rintro ⟨hsign, htaken⟩
        rw [List.cons_append, exponentDigits, if_pos hletter, hsign]
        exact bind_eq_ok.mpr ⟨_, htaken, rfl⟩
    · next hletter =>
      obtain ⟨rfl, rfl⟩ := Prod.mk.inj (Except.ok.inj hok)
      refine Passes.refl ?_
      rw [List.cons_append, exponentDigits, if_neg hletter]

/-- A number ends again where it ended, be it at the end of the text or in front of a character. -/
theorem carries_numeral :
    Carries more .outside .outside level (numeral purpose) (numeral purpose) := by
  intro text n rest hok
  obtain ⟨unsigned, afterWhole, afterFraction, rfl, hwhole, hfraction, hexponent⟩ :=
    numeral_eq_ok hok
  have hread : Passes .outside .outside level unsigned rest
      (numeral purpose ((if n.negative then ['-'] else []) ++ unsigned ++ more) =
        .ok (n, rest ++ more)) := by
    refine ((carries_wholeDigits hmore _ _ _ hwhole).trans
      ((carries_fractionDigits hmore _ _ _ hfraction).trans
        (carries_exponentDigits hmore _ _ _ hexponent))).imp ?_
    rintro ⟨hwhole, hfraction, hexponent⟩
    rw [List.append_assoc]
    exact numeral_of_parts (ne_minus_of_wholeDigits hwhole) hwhole hfraction hexponent
  cases hnegative : n.negative with
  | true =>
    rw [hnegative] at hread
    exact hread.cons (by decide)
  | false =>
    rw [hnegative] at hread
    exact hread

end Numbers

/-! ## Strings

An escape is given as the number of its characters. -/

/-- A unit is told by its four digits alone. -/
theorem exists_of_hexUnit {n : Nat} (h : hexUnit text = .ok n) :
    ∃ digits rest, text = digits ++ rest ∧ digits.length = 4 ∧
      (∀ c ∈ digits, (hexValue? c).isSome) ∧ ∀ rest', hexUnit (digits ++ rest') = .ok n := by
  rw [hexUnit] at h
  split at h
  · next m hunit =>
    obtain rfl := Except.ok.inj h
    unfold hexUnit? at hunit
    split at hunit
    · next a b c d rest =>
      have hunit' := hunit
      simp only [Option.bind_eq_bind, Option.bind_eq_some_iff] at hunit'
      obtain ⟨na, ha, nb, hb, nc, hc, nd, hd, _⟩ := hunit'
      refine ⟨[a, b, c, d], rest, rfl, rfl, by simp [ha, hb, hc, hd], fun rest' => ?_⟩
      have hdigits : hexUnit? ([a, b, c, d] ++ rest') = some m := hunit
      rw [hexUnit, hdigits]
    · cases hunit
  · split at h <;> cases h

section Strings

variable (level : Nat) (more : List Char)

theorem passes_hexUnit {n : Nat} (h : hexUnit text = .ok n) :
    4 ≤ text.length ∧
      Passes .quoted .quoted level text (text.drop 4) (hexUnit (text ++ more) = .ok n) := by
  obtain ⟨digits, rest, rfl, hlength, hdigits, hunit⟩ := exists_of_hexUnit h
  have hmarks : ∀ c ∈ digits, c ≠ '\\' ∧ c ≠ '"' := by
    intro c hc
    have hvalue := hdigits c hc
    constructor <;> rintro rfl <;> exact absurd hvalue (by decide)
  refine ⟨by simp [hlength], ?_⟩
  rw [← hlength, List.drop_left, List.append_assoc]
  exact Passes.of_after digits (Spot.after_quoted hmarks) (hunit (rest ++ more))

theorem passes_pairedEscape {high n : Nat} {char : Char}
    (h : pairedEscape high text = .ok (char, n)) :
    n ≤ text.length ∧ Passes .quoted .quoted level text (text.drop n)
      (pairedEscape high (text ++ more) = .ok (char, n)) := by
  unfold pairedEscape at h
  split at h
  · next rest =>
    obtain ⟨low, hlow, h⟩ := bind_eq_ok.mp h
    split at h
    · next hsurrogate =>
      obtain ⟨rfl, rfl⟩ := Prod.mk.inj (Except.ok.inj h)
      obtain ⟨hlength, hpass⟩ := passes_hexUnit level more hlow
      have hopen : Passes .quoted .quoted level ('\\' :: 'u' :: rest) rest True :=
        Passes.of_after ['\\', 'u'] (fun _ => rfl) trivial
      refine ⟨by simpa using hlength, (hopen.trans hpass).imp ?_⟩
      rintro ⟨-, hlow⟩
      exact bind_eq_ok.mpr ⟨low, hlow, if_pos hsurrogate⟩
    · cases h
  · cases h
  · cases h

theorem passes_unicodeEscape {n : Nat} {char : Char}
    (h : unicodeEscape purpose text = .ok (char, n)) :
    n ≤ text.length ∧ Passes .quoted .quoted level text (text.drop n)
      (unicodeEscape purpose (text ++ more) = .ok (char, n)) := by
  obtain ⟨unit, hunit, h⟩ := bind_eq_ok.mp h
  obtain ⟨hlength, hpass⟩ := passes_hexUnit level more hunit
  split at h
  · next hsurrogate =>
    cases purpose with
    | skip =>
      obtain ⟨rfl, rfl⟩ := Prod.mk.inj (Except.ok.inj h)
      refine ⟨hlength, hpass.imp fun hunit => bind_eq_ok.mpr ⟨unit, hunit, ?_⟩⟩
      rw [if_pos hsurrogate]
      rfl
    | value =>
      dsimp only at h
      split at h
      · cases h
      · next hlow =>
        obtain ⟨⟨char, taken⟩, hpair, ⟨⟩⟩ := bind_eq_ok.mp h
        obtain ⟨hlength', hpass'⟩ := passes_pairedEscape level more hpair
        rw [List.drop_drop] at hpass'
        rw [List.length_drop] at hlength'
        refine ⟨by omega, (hpass.trans hpass').imp ?_⟩
        rintro ⟨hunit, hpair⟩
        refine bind_eq_ok.mpr ⟨unit, hunit, ?_⟩
        rw [if_pos hsurrogate]
        dsimp only
        rw [if_neg hlow, List.drop_append_of_le_length hlength]
        exact bind_eq_ok.mpr ⟨_, hpair, rfl⟩
  · next hsurrogate =>
    obtain ⟨rfl, rfl⟩ := Prod.mk.inj (Except.ok.inj h)
    refine ⟨hlength, hpass.imp fun hunit => bind_eq_ok.mpr ⟨unit, hunit, ?_⟩⟩
    rw [if_neg hsurrogate]
    rfl

theorem passes_escaped {n : Nat} {char : Char} (h : escaped purpose text = .ok (char, n)) :
    n ≤ text.length ∧ Passes .covered .quoted level text (text.drop n)
      (escaped purpose (text ++ more) = .ok (char, n)) := by
  cases text with
  | nil => cases h
  | cons c rest =>
    have hfirst : Passes .covered .quoted level (c :: rest) rest True :=
      Passes.of_after [c] (fun _ => rfl) trivial
    rw [escaped] at h
    split at h
    · next hc =>
      obtain ⟨⟨char, taken⟩, hunicode, ⟨⟩⟩ := bind_eq_ok.mp h
      obtain ⟨hlength, hpass⟩ := passes_unicodeEscape level more hunicode
      rw [Nat.add_comm 1 taken]
      refine ⟨Nat.succ_le_succ hlength, (hfirst.trans hpass).imp ?_⟩
      rintro ⟨-, hunicode⟩
      rw [List.cons_append, escaped, if_pos hc, Nat.add_comm taken 1]
      exact bind_eq_ok.mpr ⟨_, hunicode, rfl⟩
    · next hc =>
      split at h
      · next found hfound =>
        obtain ⟨rfl, rfl⟩ := Prod.mk.inj (Except.ok.inj h)
        refine ⟨Nat.succ_le_succ (Nat.zero_le _), hfirst.imp fun _ => ?_⟩
        rw [List.cons_append, escaped, if_neg hc, hfound]
      · cases h

/-- The reader skips the characters of an escape. -/
theorem stringRest_drop {n : Nat} (h : n ≤ text.length) (done : List Char) :
    stringRest purpose n done text = stringRest purpose 0 done (text.drop n) := by
  have hskip := stringRest_skip purpose (text.take n) done (text.drop n)
  rwa [List.take_append_drop, List.length_take, Nat.min_eq_left h] at hskip

theorem carries_stringRest (done : List Char) :
    Carries more .quoted .outside level (stringRest purpose 0 done)
      (stringRest purpose 0 done) := by
  intro text value rest hok
  -- an escape is taken at once, so the text gets shorter by one or by all of its characters
  induction hlength : text.length using Nat.strongRecOn generalizing text done with
  | _ length ih =>
    subst hlength
    cases text with
    | nil => cases hok
    | cons c text =>
      rw [stringRest] at hok
      repeat' split at hok
      · next hquote =>
        subst hquote
        obtain ⟨rfl, rfl⟩ := Prod.mk.inj (Except.ok.inj hok)
        exact Passes.of_after ['"'] (fun _ => rfl) rfl
      · next hquote hbackslash _ char taken hescaped =>
        subst hbackslash
        obtain ⟨htaken, hescape⟩ := passes_escaped level more hescaped
        rw [stringRest_drop htaken] at hok
        have hopen : Passes .quoted .covered level ('\\' :: text) text True :=
          Passes.of_after ['\\'] (fun _ => rfl) trivial
        have hshorter : (text.drop taken).length < text.length + 1 := by
          rw [List.length_drop]
          omega
        refine (hopen.trans (hescape.trans (ih _ hshorter _ _ hok rfl))).imp ?_
        rintro ⟨-, hescape, hrest⟩
        have hlonger : taken ≤ (text ++ more).length := by
          rw [List.length_append]
          omega
        rw [List.cons_append, stringRest, if_neg hquote, if_pos rfl, hescape]
        dsimp only
        rw [stringRest_drop hlonger, List.drop_append_of_le_length htaken]
        exact hrest
      · cases hok
      · cases hok
      · next hquote hbackslash hcontrol =>
        have hplain : Passes .quoted .quoted level (c :: text) text True :=
          Passes.of_after [c] (Spot.after_quoted (by simp [hquote, hbackslash])) trivial
        refine (hplain.trans (ih _ (Nat.lt_succ_self _) _ _ hok rfl)).imp ?_
        rintro ⟨-, hrest⟩
        rw [List.cons_append, stringRest, if_neg hquote, if_neg hbackslash, if_neg hcontrol]
        exact hrest

/-- A string is read up to its closing quote, whatever stands behind that. -/
theorem carries_afterQuote :
    Carries more .quoted .outside level (afterQuote purpose) (afterQuote purpose) :=
  carries_stringRest level more []

end Strings

end SearchQuery.Json
