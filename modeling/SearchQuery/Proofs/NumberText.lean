import SearchQuery.Predicate.Expr
import SearchQuery.Number.Decimal
import SearchQuery.Proofs.Escaping

/-!
# The characters of numbers

A number is written with digits, signs, a point and the letter of an exponent: `IsNumberText`.
This holds of whole numbers and finite floats as they are written, and of every text that is read
as a decimal.
-/

namespace SearchQuery.Number

/-- Whether a number can be written with the character. -/
def isNumberChar (c : Char) : Bool :=
  isDigit c || ['+', '-', '.', 'e', 'E'].contains c

/-- Every character of the text is one that numbers are written with. -/
def IsNumberText (text : List Char) : Prop :=
  ∀ c ∈ text, isNumberChar c = true

theorem isNumberText_nil : IsNumberText [] :=
  fun _ h => nomatch h

theorem IsNumberText.cons {c : Char} (hc : isNumberChar c = true) {text : List Char}
    (h : IsNumberText text) : IsNumberText (c :: text) := by
  intro d hd
  rcases List.mem_cons.mp hd with rfl | hd
  · exact hc
  · exact h d hd

theorem IsNumberText.append {text rest : List Char} (h : IsNumberText text)
    (hrest : IsNumberText rest) : IsNumberText (text ++ rest) := by
  intro c hc
  rcases List.mem_append.mp hc with hc | hc
  · exact h c hc
  · exact hrest c hc

theorem IsNumberText.ne_of_mem {text : List Char} (h : IsNumberText text) {c : Char}
    (hc : c ∈ text) {d : Char} (hd : isNumberChar d = false) : c ≠ d := by
  intro heq
  rw [← heq, h c hc] at hd
  exact nomatch hd

theorem isNumberText_of_isDigit {text : List Char} (h : ∀ c ∈ text, isDigit c = true) :
    IsNumberText text := by
  intro c hc
  rw [isNumberChar, h c hc, Bool.true_or]

/-- Digits are neither escaped nor trimmed. -/
theorem isPlainChar_of_isDigit {c : Char} (h : isDigit c = true) : Text.isPlainChar c = true := by
  have hdigits : ∀ n < 58, 48 ≤ n → Text.isPlainChar (Char.ofNat n) = true := by decide
  simp only [isDigit, Bool.and_eq_true, decide_eq_true_eq] at h
  have hlow : 48 ≤ c.toNat := h.1
  have hhigh : c.toNat ≤ 57 := h.2
  have hplain := hdigits c.toNat (by omega) hlow
  rwa [Char.ofNat_toNat] at hplain

theorem not_isBlank_of_isNumberChar {c : Char} (h : isNumberChar c = true) :
    Text.isBlank c = false := by
  rcases Bool.or_eq_true_iff.mp h with hdigit | hsign
  · exact (Text.isPlainChar_iff.mp (isPlainChar_of_isDigit hdigit)).1
  · have hsigns : ['+', '-', '.', 'e', 'E'].all (!Text.isBlank ·) = true := by decide
    simpa using List.all_eq_true.mp hsigns c (List.contains_iff_mem.mp hsign)

theorem IsNumberText.isTrimmed {text : List Char} (h : IsNumberText text) :
    Text.IsTrimmed text where
  head c hc := not_isBlank_of_isNumberChar (h c (List.mem_of_mem_head? hc))
  last c hc := not_isBlank_of_isNumberChar (h c (List.mem_of_mem_getLast? hc))

/-! ## Writing -/

theorem isDigit_of_mem_natText {n : Nat} {c : Char} (h : c ∈ natText n) : isDigit c = true :=
  Nat.isDigit_of_mem_toDigits (by decide) (by decide) h

theorem isPlainChar_of_mem_natText {n : Nat} {c : Char} (h : c ∈ natText n) :
    Text.isPlainChar c = true :=
  isPlainChar_of_isDigit (isDigit_of_mem_natText h)

theorem natText_ne_nil (n : Nat) : natText n ≠ [] :=
  Nat.toDigits_ne_nil

/-- Only zero begins with a zero. -/
theorem head?_natText_ne {n : Nat} (h : n ≠ 0) : (natText n).head? ≠ some '0' := by
  induction n using Nat.strongRecOn with
  | ind n ih =>
    have hdigit : ∀ n < 10, n ≠ 0 → [Nat.digitChar n].head? ≠ some '0' := by decide
    by_cases hlt : n < 10
    · rw [natText, Nat.toDigits_of_lt_base hlt]
      exact hdigit n hlt h
    · have hfirst : natText (n / 10) ≠ [] := natText_ne_nil _
      obtain ⟨c, more, hmore⟩ := List.exists_cons_of_ne_nil hfirst
      have hrest := ih (n / 10) (by omega) (by omega)
      rw [hmore] at hrest
      rw [natText, Nat.toDigits_of_base_le (by omega) (by omega), ← natText, hmore]
      exact hrest

theorem isNumberText_natText (n : Nat) : IsNumberText (natText n) :=
  isNumberText_of_isDigit fun _ => isDigit_of_mem_natText

theorem isNumberText_intText (n : Int) : IsNumberText (intText n) := by
  cases n with
  | ofNat n => exact isNumberText_natText n
  | negSucc n => exact (isNumberText_natText (n + 1)).cons (by decide)

theorem isNumberText_zeros (n : Int) : IsNumberText (zeros n) := by
  intro c hc
  rw [List.eq_of_mem_replicate hc]
  decide

theorem isNumberText_ofNat (n : Nat) (e : Int) : IsNumberText (Digits.ofNat n e).digits := by
  intro c hc
  have hmem : c ∈ (natText n).reverse :=
    (List.dropWhile_sublist _).mem (List.mem_reverse.mp hc)
  exact isNumberText_natText n c (List.mem_reverse.mp hmem)

theorem isNumberText_shortest (tie : Tie) (x : Binary64) :
    IsNumberText (x.shortest tie).digits := by
  unfold Binary64.shortest
  dsimp only
  cases hfound : (List.range 17).findSome? _ with
  | none => exact isNumberText_ofNat _ _
  | some found =>
    obtain ⟨n, _, hn⟩ := List.exists_of_findSome?_eq_some hfound
    obtain ⟨d, _, rfl⟩ := Option.map_eq_some_iff.mp hn
    exact isNumberText_ofNat _ _

theorem isNumberText_positional {afterWhole : String} (h : IsNumberText afterWhole.toList)
    {d : Digits} (hd : IsNumberText d.digits) : IsNumberText (d.positional afterWhole) := by
  unfold Digits.positional
  split
  · exact (((isNumberText_zeros _).append hd).cons (by decide)).cons (by decide)
  · split
    · exact (hd.append (isNumberText_zeros _)).append h
    · have htake : IsNumberText (d.digits.take d.point.toNat) := fun c hc =>
        hd c (List.mem_of_mem_take hc)
      have hdrop : IsNumberText (d.digits.drop d.point.toNat) := fun c hc =>
        hd c (List.mem_of_mem_drop hc)
      exact htake.append (hdrop.cons (by decide))

/-- A finite float is written without words. -/
theorem isNumberText_display_float {x : Binary64} (h : x.isFinite = true) :
    IsNumberText (Literal.float x).display := by
  have hmagnitude : IsNumberText (x.magnitudeText Literal.floatFormat) := by
    unfold Binary64.magnitudeText
    split
    · exact isNumberText_nil.cons (by decide)
    · have hwhole : IsNumberText Literal.floatFormat.afterWhole.toList := isNumberText_nil
      exact isNumberText_positional hwhole (isNumberText_shortest _ x)
  rw [Literal.display, Binary64.text, if_pos h]
  split
  · exact hmagnitude.cons (by decide)
  · exact hmagnitude

/-! ## Reading -/

theorem isNumberText_of_nat? {text : List Char} {n : Nat} (h : nat? text = some n) :
    IsNumberText text := by
  unfold nat? at h
  split at h
  · rename_i hdigits
    exact isNumberText_of_isDigit (List.all_eq_true.mp hdigits.2)
  · exact nomatch h

theorem isNumberText_of_signed? {text : List Char} {n : Int} (h : signed? text = some n) :
    IsNumberText text := by
  unfold signed? at h
  split at h
  · obtain ⟨m, hm, _⟩ := Option.map_eq_some_iff.mp h
    exact (isNumberText_of_nat? hm).cons (by decide)
  · obtain ⟨m, hm, _⟩ := Option.map_eq_some_iff.mp h
    exact (isNumberText_of_nat? hm).cons (by decide)
  · obtain ⟨m, hm, _⟩ := Option.map_eq_some_iff.mp h
    exact isNumberText_of_nat? hm

theorem isNumberText_of_exponent? {text : List Char} {n : Int} (h : exponent? text = some n) :
    IsNumberText text := by
  cases text with
  | nil => exact isNumberText_nil
  | cons c rest =>
    rw [exponent?] at h
    split at h
    · rename_i hc
      refine (isNumberText_of_signed? h).cons ?_
      rcases hc with rfl | rfl <;> decide
    · exact nomatch h

theorem isNumberText_takeWhile (text : List Char) : IsNumberText (text.takeWhile isDigit) :=
  isNumberText_of_isDigit (List.all_eq_true.mp List.all_takeWhile)

theorem isNumberText_of_unsigned? {negative : Bool} {text : List Char} {d : Decimal}
    (h : Decimal.unsigned? negative text = some d) : IsNumberText text := by
  have hafter : ∀ {rest : List Char} {make : Int → Decimal},
      (exponent? rest).map make = some d → IsNumberText rest := by
    intro rest make hrest
    obtain ⟨e, he, _⟩ := Option.map_eq_some_iff.mp hrest
    exact isNumberText_of_exponent? he
  rw [← List.takeWhile_append_dropWhile (p := isDigit) (l := text)]
  refine (isNumberText_takeWhile text).append ?_
  unfold Decimal.unsigned? at h
  dsimp only at h
  split at h
  · rename_i rest hpoint
    split at h
    · exact nomatch h
    · rw [hpoint, ← List.takeWhile_append_dropWhile (p := isDigit) (l := rest)]
      exact ((isNumberText_takeWhile rest).append (hafter h)).cons (by decide)
  · split at h
    · exact nomatch h
    · exact hafter h

theorem isNumberText_of_isFiniteDecimal {text : List Char} (h : isFiniteDecimal text = true) :
    IsNumberText text := by
  obtain ⟨d, hd, _⟩ := (Option.any_eq_true _ _).mp h
  unfold Decimal.ofText? at hd
  split at hd
  · exact (isNumberText_of_unsigned? hd).cons (by decide)
  · exact (isNumberText_of_unsigned? hd).cons (by decide)
  · exact isNumberText_of_unsigned? hd

end SearchQuery.Number
