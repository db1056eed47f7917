import Mathlib.Algebra.Order.Field.Power
import Mathlib.Data.Rat.Defs
import Mathlib.Tactic.FieldSimp
import Mathlib.Tactic.NormNum
import Mathlib.Tactic.Positivity
import Mathlib.Tactic.Ring
import SearchQuery.Number.Binary64
import SearchQuery.Proofs.NumberReading
import SearchQuery.Proofs.PredicateGrammar

/-!
# Texts on numeric fields

A text that a numeric field is compared with is not escaped, so it must be a number, and one that a
64-bit float can hold.

* `WrittenDecimal` is a decimal as it is written, and `WrittenDecimal.value` its exact value.
  `ofText?_text` and `exists_text_eq_of_ofText?` say that the texts of decimals are read and no
  others.
* `isFinite_ofNat` and `isFinite_negSucc` justify the two shortcuts of the range check, which
  decides by the number of digits where the scale is far from zero.
* `two_mul_floatBound` says that the bound is the midpoint between the largest float, which
  `Binary64.magnitude_le_largest` is about, and the power of two behind it, and `lt_floatBound_iff`
  that below it the float is the nearer of the two.
* `WrittenDecimal.isFiniteDecimal_text` says that a decimal is accepted if it lies below the bound.
* `Expr.translate_numeric` takes this to comparisons.
-/

namespace SearchQuery

namespace Number

open Json (IsDigits)

/-! ## Decimals as they are written -/

/-- The exponent of a decimal: the letter, and digits with an optional sign. -/
structure DecimalExponent where
  letter : Char
  sign : Option Bool
  digits : List Char
  isLetter : letter = 'e' ∨ letter = 'E'
  isDigits : IsDigits digits

namespace DecimalExponent

/-- The exponent as it is written. -/
def text (e : DecimalExponent) : List Char :=
  e.letter :: (signText e.sign ++ e.digits)

/-- The number that the exponent is. -/
def value (e : DecimalExponent) : Int :=
  signedValue e.sign e.digits

end DecimalExponent

/-- A decimal as it is written: an optional sign, digits with an optional point among, before or
after them, and an optional exponent. -/
structure WrittenDecimal where
  sign : Option Bool
  /-- The digits before the point. -/
  whole : List Char
  /-- The digits after the point, if there is a point. -/
  fraction : Option (List Char)
  exponent : Option DecimalExponent
  whole_isDigit : ∀ c ∈ whole, isDigit c = true
  fraction_isDigit : ∀ c ∈ fraction.getD [], isDigit c = true
  hasDigits : whole ≠ [] ∨ fraction.getD [] ≠ []

namespace WrittenDecimal

/-- The decimal as it is written. -/
def text (n : WrittenDecimal) : List Char :=
  signText n.sign ++ (n.whole ++ (n.fraction.elim [] ('.' :: ·) ++
    n.exponent.elim [] DecimalExponent.text))

/-- The digits after the point. -/
def fractionDigits (n : WrittenDecimal) : List Char :=
  n.fraction.getD []

/-- The power of ten that the digits are multiplied with. -/
def power (n : WrittenDecimal) : Int :=
  n.exponent.elim 0 DecimalExponent.value

/-- The exact value without its sign. -/
def magnitude (n : WrittenDecimal) : ℚ :=
  (digitsValue 0 n.whole + digitsValue 0 n.fractionDigits / 10 ^ n.fractionDigits.length) *
    10 ^ n.power

/-- The exact value. -/
def value (n : WrittenDecimal) : ℚ :=
  if n.sign = some true then -n.magnitude else n.magnitude

/-- What is read of the text. -/
def decimal (n : WrittenDecimal) : Decimal where
  negative := n.sign = some true
  digits := n.whole ++ n.fractionDigits
  scale := n.power - n.fractionDigits.length

end WrittenDecimal

/-! ## Reading -/

theorem exponent?_text (e : Option DecimalExponent) :
    exponent? (e.elim [] DecimalExponent.text) = some (e.elim 0 DecimalExponent.value) := by
  cases e with
  | none => rfl
  | some e =>
    rw [Option.elim_some, DecimalExponent.text, exponent?, if_pos e.isLetter,
      signed?_signText e.isDigits]
    rfl

theorem exponent?_eq_some {text : List Char} {n : Int} (h : exponent? text = some n) :
    ∃ e : Option DecimalExponent, e.elim [] DecimalExponent.text = text ∧
      e.elim 0 DecimalExponent.value = n := by
  cases text with
  | nil => exact ⟨none, rfl, Option.some.inj h⟩
  | cons c rest =>
    rw [exponent?] at h
    split at h
    · next hletter =>
      obtain ⟨sign, digits, hdigits, rfl, rfl⟩ := signed?_eq_some_iff.mp h
      exact ⟨some ⟨c, sign, digits, hletter, hdigits⟩, rfl, rfl⟩
    · cases h

/-- Neither a point nor an exponent begins with a digit. -/
theorem isDigit_of_mem_head?_exponent (e : Option DecimalExponent) :
    ∀ c ∈ (e.elim [] DecimalExponent.text).head?, isDigit c = false ∧ c ≠ '.' := by
  intro c hc
  cases e with
  | none => exact nomatch hc
  | some e =>
    obtain rfl := Option.some.inj hc
    rcases e.isLetter with hletter | hletter
    · rw [hletter]
      decide
    · rw [hletter]
      decide

theorem unsigned?_text (n : WrittenDecimal) (negative : Bool) :
    Decimal.unsigned? negative (n.whole ++ (n.fraction.elim [] ('.' :: ·) ++
        n.exponent.elim [] DecimalExponent.text)) =
      some ⟨negative, n.whole ++ n.fractionDigits, n.power - n.fractionDigits.length⟩ := by
  obtain ⟨sign, whole, fraction, exponent, hwhole, hfraction, hdigits⟩ := n
  have hhead := isDigit_of_mem_head?_exponent exponent
  have hexponent := exponent?_text exponent
  unfold Decimal.unsigned?
  dsimp only
  cases fraction with
  | none =>
    have hne : whole ≠ [] := hdigits.resolve_right (by simp)
    obtain ⟨htake, hdrop⟩ :=
      Json.takeWhile_dropWhile_isDigit hwhole fun c hc => (hhead c hc).1
    rw [Option.elim_none, List.nil_append, htake, hdrop]
    split
    · next heq => exact absurd rfl (hhead '.' (by rw [heq]; rfl)).2
    · rw [if_neg fun h => hne h.1, hexponent]
      rfl
  | some fraction =>
    have hpoint : ∀ c ∈ ('.' :: (fraction ++ exponent.elim [] DecimalExponent.text)).head?,
        isDigit c = false := by
      rintro c ⟨⟩
      decide
    obtain ⟨htake, hdrop⟩ := Json.takeWhile_dropWhile_isDigit hwhole hpoint
    obtain ⟨htake', hdrop'⟩ :=
      Json.takeWhile_dropWhile_isDigit hfraction fun c hc => (hhead c hc).1
    rw [Option.getD_some] at htake' hdrop' hdigits
    rw [Option.elim_some, List.cons_append, htake, hdrop]
    split
    · next heq =>
      rw [← (List.cons.inj heq).2, htake', hdrop',
        if_neg fun h => hdigits.elim (absurd h.1) (absurd h.2), hexponent]
      rfl
    · next hother => exact absurd rfl (hother _)

/-- Without its sign, a decimal begins with a digit or a point. -/
theorem ne_sign_of_mem_head? (n : WrittenDecimal) {c : Char}
    (hc : c ∈ (n.whole ++ (n.fraction.elim [] ('.' :: ·) ++
      n.exponent.elim [] DecimalExponent.text)).head?) : c ≠ '+' ∧ c ≠ '-' := by
  obtain ⟨sign, whole, fraction, exponent, hwhole, hfraction, hdigits⟩ := n
  cases whole with
  | nil =>
    cases fraction with
    | none => exact absurd rfl (hdigits.resolve_left fun h => h rfl)
    | some fraction =>
      obtain rfl := Option.some.inj hc
      decide
  | cons d whole =>
    obtain rfl := Option.some.inj hc
    have hdigit : isDigit d = true := hwhole d List.mem_cons_self
    constructor
    · rintro rfl
      exact absurd hdigit (by decide)
    · rintro rfl
      exact absurd hdigit (by decide)

/-- A decimal is read from its text. -/
theorem ofText?_text (n : WrittenDecimal) : Decimal.ofText? n.text = some n.decimal := by
  have hread := unsigned?_text n
  have hhead {c : Char} := @ne_sign_of_mem_head? n c
  rw [WrittenDecimal.text, WrittenDecimal.decimal]
  rcases hsign : n.sign with _ | _ | _
  · rw [signText, List.nil_append]
    unfold Decimal.ofText?
    split
    · next heq => exact absurd rfl (hhead (c := '+') (by rw [heq]; rfl)).1
    · next heq => exact absurd rfl (hhead (c := '-') (by rw [heq]; rfl)).2
    · exact hread false
  · exact hread false
  · exact hread true

theorem exists_text_eq_of_unsigned? {negative : Bool} {text : List Char} {d : Decimal}
    (h : Decimal.unsigned? negative text = some d) (sign : Option Bool) :
    ∃ n : WrittenDecimal, n.text = signText sign ++ text := by
  have hwhole : ∀ c ∈ text.takeWhile isDigit, isDigit c = true :=
    List.all_eq_true.mp List.all_takeWhile
  have htext := List.takeWhile_append_dropWhile (p := isDigit) (l := text)
  unfold Decimal.unsigned? at h
  dsimp only at h
  split at h
  · next rest hpoint =>
    split at h
    · exact nomatch h
    · next hne =>
      obtain ⟨e, he, _⟩ := Option.map_eq_some_iff.mp h
      obtain ⟨exponent, hexponent, _⟩ := exponent?_eq_some he
      refine ⟨⟨sign, text.takeWhile isDigit, some (rest.takeWhile isDigit), exponent, hwhole,
        List.all_eq_true.mp List.all_takeWhile, not_and_or.mp hne⟩, ?_⟩
      rw [WrittenDecimal.text, hexponent, Option.elim_some, List.cons_append,
        List.takeWhile_append_dropWhile, ← hpoint, htext]
  · split at h
    · exact nomatch h
    · next hne =>
      obtain ⟨e, he, _⟩ := Option.map_eq_some_iff.mp h
      obtain ⟨exponent, hexponent, _⟩ := exponent?_eq_some he
      refine ⟨⟨sign, text.takeWhile isDigit, none, exponent, hwhole, nofun,
        not_and_or.mp hne⟩, ?_⟩
      rw [WrittenDecimal.text, hexponent, Option.elim_none, List.nil_append, htext]

/-- What is read is the text of a decimal. -/
theorem exists_text_eq_of_ofText? {text : List Char} {d : Decimal}
    (h : Decimal.ofText? text = some d) : ∃ n : WrittenDecimal, n.text = text := by
  unfold Decimal.ofText? at h
  split at h
  · exact exists_text_eq_of_unsigned? h (some false)
  · exact exists_text_eq_of_unsigned? h (some true)
  · exact exists_text_eq_of_unsigned? h none

/-! ## The largest float -/

namespace Binary64

/-- The largest float: its exponent is the greatest of a finite one, and all bits of its fraction
are set. -/
def largest : Binary64 :=
  ⟨0x7FEFFFFFFFFFFFFF⟩

/-- What a finite float stands for, without its sign. -/
def magnitude (x : Binary64) : ℚ :=
  x.significand * 2 ^ x.exponent

theorem isFinite_largest : largest.isFinite = true := by
  decide

theorem magnitude_largest : largest.magnitude = (2 ^ 53 - 1) * 2 ^ 971 := by
  have hsignificand : largest.significand = 2 ^ 53 - 1 := by decide
  have hexponent : largest.exponent = 971 := by decide
  rw [magnitude, hsignificand, hexponent]
  norm_num

theorem magnitude_largest_lt : largest.magnitude < 2 ^ 1024 := by
  have hpow : (2 : ℚ) ^ 1024 = 2 ^ 53 * 2 ^ 971 := pow_add 2 53 971
  rw [magnitude_largest, hpow]
  exact mul_lt_mul_of_pos_right (sub_one_lt _) (by positivity)

theorem significand_lt (x : Binary64) : x.significand < 2 ^ 53 := by
  have hfraction : x.fraction < 2 ^ 52 := Nat.mod_lt _ (by decide)
  have hpow : Nat.pow 2 52 = 2 ^ 52 := rfl
  rw [significand, hpow]
  split <;> omega

theorem exponent_le {x : Binary64} (h : x.isFinite = true) : x.exponent ≤ 971 := by
  have hlt : x.biasedExponent < 2 ^ 11 := Nat.mod_lt _ (by decide)
  have hne : x.biasedExponent ≠ 2047 := of_decide_eq_true h
  rw [exponent]
  omega

/-- No finite float is larger. -/
theorem magnitude_le_largest {x : Binary64} (h : x.isFinite = true) :
    x.magnitude ≤ largest.magnitude := by
  have hsignificand : (x.significand : ℚ) ≤ 2 ^ 53 - 1 := by
    have hle : x.significand + 1 ≤ 2 ^ 53 := x.significand_lt
    rw [le_sub_iff_add_le]
    exact_mod_cast hle
  have hexponent : (2 : ℚ) ^ x.exponent ≤ 2 ^ (971 : ℤ) :=
    zpow_le_zpow_right₀ (by norm_num) (exponent_le h)
  rw [magnitude_largest, magnitude]
  exact mul_le_mul hsignificand (by exact_mod_cast hexponent) (by positivity) (by norm_num)

end Binary64

theorem cast_eq_sub {bound m n : ℕ} (h : bound + 2 ^ n = 2 ^ m) :
    (bound : ℚ) = 2 ^ m - 2 ^ n := by
  rw [eq_sub_iff_add_eq]
  exact_mod_cast h

theorem cast_floatBound : (floatBound : ℚ) = 2 ^ 1024 - 2 ^ 970 :=
  cast_eq_sub (show floatBound + 2 ^ 970 = 2 ^ 1024 by decide +kernel)

/-- The bound is the midpoint between the largest float and the power of two behind it. -/
theorem two_mul_floatBound : 2 * (floatBound : ℚ) = Binary64.largest.magnitude + 2 ^ 1024 := by
  have hpow : (2 : ℚ) ^ 1024 = 2 ^ 53 * 2 ^ 971 := pow_add 2 53 971
  have hplace : (2 : ℚ) ^ 971 = 2 * 2 ^ 970 := pow_succ' 2 970
  rw [cast_floatBound, Binary64.magnitude_largest, hpow, hplace]
  generalize (2 : ℚ) ^ 970 = half
  ring

/-- What lies below the bound is nearer to the largest float than to the power of two behind it. -/
theorem lt_floatBound_iff {x : ℚ} :
    x < floatBound ↔ |x - Binary64.largest.magnitude| < |x - 2 ^ 1024| := by
  have hmid := two_mul_floatBound
  have hlt := Binary64.magnitude_largest_lt
  generalize Binary64.largest.magnitude = largest at *
  generalize (2 : ℚ) ^ 1024 = power at *
  have hdifference : (x - power) ^ 2 - (x - largest) ^ 2 =
      (power - largest) * (2 * (floatBound - x)) := by
    rw [mul_sub, hmid]
    ring
  rw [← sq_lt_sq, ← sub_pos, ← sub_pos (b := (x - largest) ^ 2), hdifference,
    mul_pos_iff_of_pos_left (sub_pos.mpr hlt), mul_pos_iff_of_pos_left two_pos]

/-! ## Magnitudes -/

theorem digitsValue_eq_add (n : Nat) (digits : List Char) :
    digitsValue n digits = 10 ^ digits.length * n + digitsValue 0 digits :=
  Nat.ofDigitChars_eq_ofDigitChars_zero

theorem digitsValue_append (digits more : List Char) :
    digitsValue 0 (digits ++ more) =
      10 ^ more.length * digitsValue 0 digits + digitsValue 0 more :=
  (Nat.ofDigitChars_append 0).trans (digitsValue_eq_add _ more)

theorem digitValue_lt {c : Char} (h : isDigit c = true) : digitValue c < 10 := by
  simp only [isDigit, Bool.and_eq_true, decide_eq_true_eq] at h
  have hhigh : c.toNat ≤ 57 := h.2
  have hzero : '0'.toNat = 48 := rfl
  rw [digitValue, hzero]
  omega

/-- Digits are worth less than the power of ten of their number. -/
theorem digitsValue_lt {digits : List Char} (h : ∀ c ∈ digits, isDigit c = true) :
    digitsValue 0 digits < 10 ^ digits.length := by
  induction digits with
  | nil => exact Nat.one_pos
  | cons c digits ih =>
    have hc := digitValue_lt (h c List.mem_cons_self)
    have hrest := ih fun d hd => h d (List.mem_cons_of_mem _ hd)
    have hcons : digitsValue 0 (c :: digits) =
        10 ^ digits.length * (10 * 0 + digitValue c) + digitsValue 0 digits :=
      digitsValue_eq_add _ digits
    rw [hcons, List.length_cons]
    calc
      10 ^ digits.length * (10 * 0 + digitValue c) + digitsValue 0 digits
          < 10 ^ digits.length * (10 * 0 + digitValue c) + 10 ^ digits.length := by omega
      _ = 10 ^ digits.length * (digitValue c + 1) := by ring
      _ ≤ 10 ^ digits.length * 10 := Nat.mul_le_mul_left _ hc
      _ = 10 ^ (digits.length + 1) := (pow_succ 10 digits.length).symm

/-- The exact value of what is read, without its sign. -/
def Decimal.magnitude (d : Decimal) : ℚ :=
  digitsValue 0 d.digits * 10 ^ d.scale

theorem floatBound_lt_pow {e : ℕ} (he : 308 < e) : floatBound < 10 ^ e := by
  have hbound : floatBound < 10 ^ 309 := by decide +kernel
  exact hbound.trans_le (pow_le_pow_right₀ (by decide) he)

/-- With a scale that is not negative the digits are enlarged, and from 309 on all numbers but zero
are too large. -/
theorem isFinite_ofNat (negative : Bool) (digits : List Char) (e : Nat) :
    (Decimal.mk negative digits (.ofNat e)).isFinite = true ↔
      digitsValue 0 digits * 10 ^ e < floatBound := by
  have hpos : 0 < floatBound := by decide +kernel
  have hlarge : digitsValue 0 digits ≠ 0 → 308 < e →
      ¬digitsValue 0 digits * 10 ^ e < floatBound := by
    intro hne he hlt
    have hle : 10 ^ e ≤ digitsValue 0 digits * 10 ^ e :=
      Nat.le_mul_of_pos_left _ (Nat.pos_of_ne_zero hne)
    exact absurd ((floatBound_lt_pow he).trans_le hle) (Nat.lt_asymm hlt)
  simp only [Decimal.isFinite, Bool.or_eq_true, Bool.and_eq_true, decide_eq_true_eq]
  by_cases hzero : digitsValue 0 digits = 0
  · simp [hzero, hpos]
  · constructor
    · rintro (hzero' | ⟨_, hlt⟩)
      · exact absurd hzero' hzero
      · exact hlt
    · intro hlt
      exact .inr ⟨Nat.le_of_not_lt fun he => hlarge hzero he hlt, hlt⟩

/-- With a negative scale digits are cut off, and as many as there are leave less than one. -/
theorem isFinite_negSucc (negative : Bool) {digits : List Char}
    (h : ∀ c ∈ digits, isDigit c = true) (e : Nat) :
    (Decimal.mk negative digits (.negSucc e)).isFinite = true ↔
      digitsValue 0 digits < floatBound * 10 ^ (e + 1) := by
  have hpos : 0 < floatBound := by decide +kernel
  simp only [Decimal.isFinite, Bool.or_eq_true, decide_eq_true_eq]
  constructor
  · rintro (hlength | hlt)
    · calc
        digitsValue 0 digits < 10 ^ digits.length := digitsValue_lt h
        _ ≤ 10 ^ (e + 1) := Nat.pow_le_pow_right (by decide) hlength
        _ ≤ floatBound * 10 ^ (e + 1) := Nat.le_mul_of_pos_left _ hpos
    · exact hlt
  · exact .inr

theorem isFinite_iff {d : Decimal} (h : ∀ c ∈ d.digits, isDigit c = true) :
    d.isFinite = true ↔ d.magnitude < 2 ^ 1024 - 2 ^ 970 := by
  obtain ⟨negative, digits, e | e⟩ := d
  · rw [isFinite_ofNat, Decimal.magnitude, ← cast_floatBound, Int.ofNat_eq_natCast, zpow_natCast]
    norm_cast
  · rw [isFinite_negSucc negative h, Decimal.magnitude, ← cast_floatBound, zpow_negSucc,
      ← div_eq_mul_inv, div_lt_iff₀ (by positivity)]
    norm_cast

namespace WrittenDecimal

theorem magnitude_nonneg (n : WrittenDecimal) : 0 ≤ n.magnitude := by
  unfold magnitude
  positivity

theorem magnitude_eq (n : WrittenDecimal) : n.magnitude = n.decimal.magnitude := by
  have hten : (10 : ℚ) ≠ 0 := by norm_num
  rw [magnitude, Decimal.magnitude, decimal, digitsValue_append, zpow_sub₀ hten, zpow_natCast]
  push_cast
  field_simp

theorem abs_value (n : WrittenDecimal) : |n.value| = n.decimal.magnitude := by
  rw [← magnitude_eq, value]
  split
  · rw [abs_neg, abs_of_nonneg n.magnitude_nonneg]
  · exact abs_of_nonneg n.magnitude_nonneg

theorem decimal_isDigit (n : WrittenDecimal) : ∀ c ∈ n.decimal.digits, isDigit c = true := by
  intro c hc
  rcases List.mem_append.mp hc with hc | hc
  · exact n.whole_isDigit c hc
  · exact n.fraction_isDigit c hc

/-- A decimal is accepted if it lies below the midpoint between the largest float and the power of
two behind it. -/
theorem isFiniteDecimal_text (n : WrittenDecimal) :
    isFiniteDecimal n.text = true ↔ |n.value| < 2 ^ 1024 - 2 ^ 970 := by
  rw [isFiniteDecimal, ofText?_text, Option.any_some, isFinite_iff n.decimal_isDigit, abs_value]

end WrittenDecimal

end Number

/-! ## Comparisons -/

namespace Expr

open Text

/-- A comparison of a field with a value that is already a text, as seen from the field. -/
def comparisonText (op : BinaryOp) (field : String) (text : List Char) : List Char :=
  match op with
  | .equal => onField field text
  | .notEqual => negation (onField field text)
  | op => onField field (Scope.orderingInterval op text)

/-- The text stands in the comparison as it is, whatever it is. -/
theorem exists_comparisonText_eq (op : BinaryOp) (field : String) :
    ∃ before after : List Char, ∀ text,
      comparisonText op field text = before ++ text ++ after := by
  cases op with
  | equal =>
    refine ⟨fieldName field ++ [':'], [], fun text => ?_⟩
    simp [comparisonText, onField]
  | notEqual =>
    refine ⟨"NOT (".toList ++ fieldName field ++ [':'], [')'], fun text => ?_⟩
    simp [comparisonText, onField, negation, parenthesized]
  | greaterThan =>
    refine ⟨fieldName field ++ [':', '{'], " TO *]".toList, fun text => ?_⟩
    simp [comparisonText, onField, Scope.orderingInterval, interval]
  | greaterThanOrEqual =>
    refine ⟨fieldName field ++ [':', '['], " TO *]".toList, fun text => ?_⟩
    simp [comparisonText, onField, Scope.orderingInterval, interval]
  | lessThan =>
    refine ⟨fieldName field ++ ":[* TO ".toList, ['}'], fun text => ?_⟩
    simp [comparisonText, onField, Scope.orderingInterval, interval]
  | _ =>
    refine ⟨fieldName field ++ ":[* TO ".toList, [']'], fun text => ?_⟩
    simp [comparisonText, onField, Scope.orderingInterval, interval]

variable {scope : Scope} {op op' : BinaryOp} {field : String} {left right operand : Expr}

/-- A comparison is written as it is seen from its field, whichever side the field is on. -/
theorem render_of_orient (hop : op.isComparison = true)
    (horient : Scope.orient op left right = .ok (field, operand, op'))
    (hseen : op' = op ∨ op' = op.converse) {value : Literal}
    (hvalue : scope.value operand = .ok value) :
    (binary op left right).render scope =
      (scope.valueText field value).map (comparisonText op' field) := by
  have hcomparison (require : BinaryOp → List Char → List Char) :=
    Scope.comparison_of_orient horient hvalue require
  cases op with
  | equal =>
    rcases hseen with rfl | rfl
    · exact hcomparison fun _ text => text
    · exact hcomparison fun _ text => text
  | notEqual =>
    rw [render, Scope.equality, hcomparison]
    rcases hseen with rfl | rfl
    · cases scope.valueText field value <;> rfl
    · cases scope.valueText field value <;> rfl
  | greaterThan | greaterThanOrEqual | lessThan | lessThanOrEqual =>
    rcases hseen with rfl | rfl
    · exact hcomparison Scope.orderingInterval
    · exact hcomparison Scope.orderingInterval
  | andAlso | orElse | add | subtract | multiply | divide | modulo =>
    exact absurd hop Bool.false_ne_true

theorem render_field_left (hop : op.isComparison = true) {value : Literal}
    (hvalue : scope.value operand = .ok value) :
    (binary op (.field field) operand).render scope =
      (scope.valueText field value).map (comparisonText op field) :=
  render_of_orient hop (Scope.orient_field_left (Scope.ne_field_of_value hvalue) op field)
    (.inl rfl) hvalue

theorem render_field_right (hop : op.isComparison = true) {value : Literal}
    (hvalue : scope.value operand = .ok value) :
    (binary op operand (.field field)).render scope =
      (scope.valueText field value).map (comparisonText op.converse field) :=
  render_of_orient hop (Scope.orient_field_right (Scope.ne_field_of_value hvalue) op field)
    (.inr rfl) hvalue

theorem valueText_numeric_text (hfield : scope.fieldType field = some .numeric) (s : String) :
    scope.valueText field (.text s) =
      if Number.isFiniteDecimal (trim s.toList) = true then .ok (trim s.toList)
      else .error (.typeMismatch field .numeric (.text s)) := by
  rw [Scope.valueText, hfield]
  by_cases hfinite : Number.isFiniteDecimal (trim s.toList) = true
  · simp only [Scope.numericText?, if_pos hfinite, Scope.valueText.orMismatch]
  · simp only [Scope.numericText?, if_neg hfinite, Scope.valueText.orMismatch]

/-- On either side of a numeric field a text is accepted if, without the blanks about it, it is a
decimal whose exact value rounds to a finite 64-bit float, and then it stands in the query string
as it is, digits, signs, points and the letter of an exponent, between what depends on the operator
and the field alone.  Every other text is refused, and the error has the field, its type and the
text with its blanks. -/
theorem translate_numeric {s : String} (hop : op.isComparison = true)
    (hfield : scope.fieldType field = some .numeric)
    (hvalue : scope.value operand = .ok (.text s)) :
    (∀ n : Number.WrittenDecimal, n.text = trim s.toList → |n.value| < 2 ^ 1024 - 2 ^ 970 →
      Number.IsNumberText (trim s.toList) ∧
        (binary op (.field field) operand).translate scope =
          .ok (String.ofList (comparisonText op field (trim s.toList))) ∧
        (binary op operand (.field field)).translate scope =
          .ok (String.ofList (comparisonText op.converse field (trim s.toList)))) ∧
    ((∀ n : Number.WrittenDecimal, n.text = trim s.toList → ¬|n.value| < 2 ^ 1024 - 2 ^ 970) →
      (binary op (.field field) operand).translate scope =
          .error (.typeMismatch field .numeric (.text s)) ∧
        (binary op operand (.field field)).translate scope =
          .error (.typeMismatch field .numeric (.text s))) ∧
    ∀ seen : BinaryOp, ∃ before after : List Char, ∀ text,
      comparisonText seen field text = before ++ text ++ after := by
  rw [translate, translate, render_field_left hop hvalue, render_field_right hop hvalue,
    valueText_numeric_text hfield]
  refine ⟨?_, ?_, fun seen => exists_comparisonText_eq seen field⟩
  · intro n htext hbound
    have hfinite : Number.isFiniteDecimal (trim s.toList) = true :=
      htext ▸ n.isFiniteDecimal_text.mpr hbound
    rw [if_pos hfinite]
    exact ⟨Number.isNumberText_of_isFiniteDecimal hfinite, rfl, rfl⟩
  · intro hnone
    have hfinite : ¬Number.isFiniteDecimal (trim s.toList) = true := by
      intro hfinite
      obtain ⟨d, hread, _⟩ := (Option.any_eq_true _ _).mp hfinite
      obtain ⟨n, htext⟩ := Number.exists_text_eq_of_ofText? hread
      exact hnone n htext (n.isFiniteDecimal_text.mp (htext ▸ hfinite))
    rw [if_neg hfinite]
    exact ⟨rfl, rfl⟩

/-- A price with every part that a decimal can have, between two blanks. -/
theorem translate_numeric_price :
    let scope : Scope := ⟨fun _ => some .numeric, fun _ => none⟩
    let operand : Expr := .literal (.text " -1.50E+3\u2003")
    BinaryOp.greaterThanOrEqual.isComparison = true ∧
      scope.fieldType "price" = some .numeric ∧
      scope.value operand = .ok (.text " -1.50E+3\u2003") ∧
      (binary .greaterThanOrEqual (.field "price") operand).translate scope =
        .ok "price:[-1.50E+3 TO *]" ∧
      (binary .greaterThanOrEqual operand (.field "price")).translate scope =
        .ok "price:[* TO -1.50E+3]" := by
  let price : Number.WrittenDecimal :=
    { sign := some true
      whole := ['1']
      fraction := some ['5', '0']
      exponent := some ⟨'E', some false, ['3'], .inr rfl, nofun, List.all_eq_true.mp rfl⟩
      whole_isDigit := List.all_eq_true.mp rfl
      fraction_isDigit := List.all_eq_true.mp rfl
      hasDigits := .inl nofun }
  have htext : price.text = trim " -1.50E+3\u2003".toList := by decide
  have hbound : |price.value| < 2 ^ 1024 - 2 ^ 970 :=
    price.isFiniteDecimal_text.mp (by decide +kernel)
  obtain ⟨_, hleft, hright⟩ :=
    (@translate_numeric ⟨fun _ => some .numeric, fun _ => none⟩ .greaterThanOrEqual "price"
      (.literal (.text " -1.50E+3\u2003")) _ rfl rfl rfl).1 price htext hbound
  exact ⟨rfl, rfl, rfl, hleft, hright⟩

end Expr

end SearchQuery
