import SearchQuery.Proofs.Covering
import SearchQuery.Proofs.EscapePasses

/-!
# Operators that escaping leaves bare

An operator is bare in a text if a reader of the query syntax comes upon it and none of its
characters is covered.  An escaped text has no bare operator of one character.  A pair of `&` or
`|`, however, gets one backslash in front of both characters.  This covers the first of them only,
so a third one makes a pair with the second: `&&&` is written `\&&&`.

* `isBare_cons` and `isBare_covered` say where a bare operator can stand, character by character.
* `HasOddRun` holds of the texts in which `&`, say, stands three or five times in a row.  It follows
  the same steps as the scan that escapes (`hasOddRun_cons`, `hasOddRun_pair`).
* `isBare_escape_iff` is the result: pairs are left bare by runs of odd length, and nothing else is.
-/

namespace SearchQuery.Text

/-! ## Bare operators -/

/-- The characters of an operator as they stand in a text. -/
def Operator.text : Operator → List Char
  | .single c => [c]
  | .double c => [c, c]

/-- A reader comes upon the operator, and nothing covers it. -/
def IsBare (operator : Operator) (text : List Char) : Prop :=
  ∃ before after, text = before ++ operator.text ++ after ∧ covers false before = false

theorem Operator.head?_text (operator : Operator) : operator.text.head? = some operator.char := by
  cases operator <;> rfl

theorem Operator.text_ne_nil (operator : Operator) : operator.text ≠ [] := by
  cases operator <;> nofun

theorem not_isBare_nil (operator : Operator) : ¬IsBare operator [] := by
  rintro ⟨before, after, htext, _⟩
  have hnil := List.append_eq_nil_iff.mp htext.symm
  exact operator.text_ne_nil (List.append_eq_nil_iff.mp hnil.1).2

section

variable {operator : Operator} {c : Char} {text : List Char}

/-- A bare operator stands at the beginning, or behind the first character. -/
theorem isBare_cons (hc : c ≠ '\\') :
    IsBare operator (c :: text) ↔ operator.text <+: c :: text ∨ IsBare operator text := by
  constructor
  · rintro ⟨before, after, htext, hbefore⟩
    cases before with
    | nil => exact .inl ⟨after, htext.symm⟩
    | cons d before =>
      obtain ⟨rfl, htail⟩ := List.cons.inj htext
      rw [covers_cons_of_ne hc] at hbefore
      exact .inr ⟨before, after, htail, hbefore⟩
  · rintro (⟨after, htext⟩ | ⟨before, after, rfl, hbefore⟩)
    · exact ⟨[], after, htext.symm, rfl⟩
    · refine ⟨c :: before, after, rfl, ?_⟩
      rw [covers_cons_of_ne hc, hbefore]

/-- No operator begins with a backslash, and none with the character that it covers. -/
theorem isBare_covered (hoperator : operator.char ≠ '\\') (c : Char) :
    IsBare operator ('\\' :: c :: text) ↔ IsBare operator text := by
  constructor
  · rintro ⟨before, after, htext, hbefore⟩
    match before with
    | [] =>
      have hhead : some '\\' = some operator.char := by
        simpa [List.head?_append, operator.head?_text] using congrArg List.head? htext
      exact absurd (Option.some.inj hhead).symm hoperator
    | [d] =>
      obtain ⟨rfl, _⟩ := List.cons.inj htext
      exact nomatch hbefore
    | d :: e :: before =>
      obtain ⟨rfl, htail⟩ := List.cons.inj htext
      exact ⟨before, after, (List.cons.inj htail).2, hbefore⟩
  · rintro ⟨before, after, rfl, hbefore⟩
    exact ⟨'\\' :: c :: before, after, rfl, hbefore⟩

theorem isBare_double_cons (hc : c ≠ '\\') {d : Char} :
    IsBare (.double d) (c :: text) ↔
      d = c ∧ text.head? = some d ∨ IsBare (.double d) text := by
  rw [isBare_cons hc, Operator.text, List.cons_prefix_cons]
  cases text with
  | nil => simp
  | cons e text => simp [List.cons_prefix_cons, eq_comm]

theorem mem_uncovered_of_isBare (hc : c ≠ '\\') (h : IsBare (.single c) text) :
    c ∈ uncovered false text := by
  obtain ⟨before, after, rfl, hbefore⟩ := h
  rw [List.append_assoc, uncovered_append, hbefore, Operator.text, List.singleton_append,
    uncovered_cons_of_ne hc]
  exact List.mem_append_right _ List.mem_cons_self

end

/-! ## Runs of odd length -/

/-- Somewhere the character stands three times in a row, or five times, or any greater odd number
of times, and no further time beside these. -/
def HasOddRun (c : Char) (text : List Char) : Prop :=
  ∃ before count after, text = before ++ List.replicate (2 * count + 3) c ++ after ∧
    before.getLast? ≠ some c ∧ after.head? ≠ some c

/-- The text begins with the character, and it is not followed by another one. -/
def BeginsAlone (c : Char) (text : List Char) : Prop :=
  text.head? = some c ∧ text.tail.head? ≠ some c

theorem not_hasOddRun_nil (c : Char) : ¬HasOddRun c [] := by
  rintro ⟨before, count, after, htext, _⟩
  simp [List.replicate_succ] at htext

theorem getLast?_of_cons_ne {c d : Char} {text : List Char}
    (h : (d :: text).getLast? ≠ some c) : text.getLast? ≠ some c := by
  intro htext
  rw [List.getLast?_cons, htext] at h
  exact h rfl

theorem getLast?_cons_ne {c d : Char} {text : List Char} (hd : text = [] → d ≠ c)
    (h : text.getLast? ≠ some c) : (d :: text).getLast? ≠ some c := by
  cases text with
  | nil => simpa using hd rfl
  | cons e text => rwa [List.getLast?_cons_cons]

section

variable {c d : Char} {rest : List Char}

/-- Unless a pair begins with it, the first character is no part of a run. -/
theorem hasOddRun_cons (h : d = c → rest.head? ≠ some c) :
    HasOddRun c (d :: rest) ↔ HasOddRun c rest := by
  constructor
  · rintro ⟨before, count, after, htext, hbefore, hafter⟩
    cases before with
    | nil =>
      obtain ⟨rfl, rfl⟩ := List.cons.inj htext
      exact absurd rfl (h rfl)
    | cons e before =>
      exact ⟨before, count, after, (List.cons.inj htext).2, getLast?_of_cons_ne hbefore, hafter⟩
  · rintro ⟨before, count, after, rfl, hbefore, hafter⟩
    refine ⟨d :: before, count, after, rfl, getLast?_cons_ne ?_ hbefore, hafter⟩
    rintro rfl rfl
    exact h rfl rfl

/-- A pair is part of a run of odd length if what follows it is, or if the run ends with the
character behind it. -/
theorem hasOddRun_pair :
    HasOddRun c (c :: c :: rest) ↔ BeginsAlone c rest ∨ HasOddRun c rest := by
  constructor
  · rintro ⟨before, count, after, htext, hbefore, hafter⟩
    match before with
    | [] =>
      have hrest : rest = List.replicate (2 * count + 1) c ++ after :=
        (List.cons.inj (List.cons.inj htext).2).2
      cases count with
      | zero =>
        subst hrest
        exact .inl ⟨rfl, hafter⟩
      | succ count => exact .inr ⟨[], count, after, hrest, nofun, hafter⟩
    | [d] =>
      obtain ⟨rfl, _⟩ := List.cons.inj htext
      exact absurd rfl hbefore
    | d :: e :: before =>
      have hrest := (List.cons.inj (List.cons.inj htext).2).2
      exact .inr ⟨before, count, after, hrest,
        getLast?_of_cons_ne (getLast?_of_cons_ne hbefore), hafter⟩
  · rintro (⟨hhead, htail⟩ | ⟨before, count, after, rfl, hbefore, hafter⟩)
    · obtain ⟨after, rfl⟩ := List.head?_eq_some_iff.mp hhead
      exact ⟨[], 0, after, rfl, nofun, htail⟩
    · cases before with
      | nil => exact ⟨[], count + 1, after, rfl, nofun, hafter⟩
      | cons d before =>
        refine ⟨c :: c :: d :: before, count, after, rfl, ?_, hafter⟩
        rwa [List.getLast?_cons_cons, List.getLast?_cons_cons]

end

/-! ## Escaped texts -/

section

variable {c : Char} (hc : .double c ∈ operators)

include hc

/-- Only where it stands alone is the character written without a backslash in front. -/
theorem head?_escapeOnce (text : List Char) :
    (escapeOnce text).head? = some c ↔ BeginsAlone c text := by
  have hbackslash : '\\' ≠ c := (char_ne_backslash_of_mem_operators _ hc).symm
  induction text using escapeOnce_induction with
  | nil => simp [escapeOnce, BeginsAlone]
  | pair d rest hd =>
    simp [escapeOnce_pair hd, BeginsAlone, hbackslash]
  | cons d rest h =>
    rw [escapeOnce_cons h, escapeChar]
    by_cases hdc : d = c
    · subst hdc
      have hplain : ¬(d = '\\' ∨ .single d ∈ operators) := by
        rintro (rfl | hsingle)
        · exact hbackslash rfl
        · exact not_single_mem_of_double_mem hc hsingle
      have halone : rest.head? ≠ some d := fun hhead => h ⟨hc, hhead⟩
      rw [if_neg hplain]
      exact iff_of_true rfl ⟨rfl, halone⟩
    · refine iff_of_false ?_ fun halone => hdc (Option.some.inj halone.1)
      split
      · exact fun hhead => hbackslash (Option.some.inj hhead)
      · exact fun hhead => hdc (Option.some.inj hhead)

/-- Escaping leaves a pair bare where a run has an odd length. -/
theorem isBare_double_escapeOnce (text : List Char) :
    IsBare (.double c) (escapeOnce text) ↔ HasOddRun c text := by
  have hoperator : (Operator.double c).char ≠ '\\' := char_ne_backslash_of_mem_operators _ hc
  induction text using escapeOnce_induction with
  | nil => exact iff_of_false (not_isBare_nil _) (not_hasOddRun_nil c)
  | pair d rest hd ih =>
    have hd' : d ≠ '\\' := char_ne_backslash_of_mem_operators _ hd
    rw [escapeOnce_pair hd, isBare_covered hoperator, isBare_double_cons hd']
    refine (or_congr_right ih).trans ?_
    by_cases hcd : c = d
    · -- The second character of the pair is bare, and only a character that stands alone joins it.
      subst hcd
      rw [head?_escapeOnce hc, hasOddRun_pair, and_iff_right rfl]
    · rw [hasOddRun_cons fun hdc => absurd hdc.symm hcd,
        hasOddRun_cons fun hdc => absurd hdc.symm hcd]
      exact or_iff_right fun hpair => hcd hpair.1
  | cons d rest h ih =>
    have halone : d = c → rest.head? ≠ some c := by
      rintro rfl hhead
      exact h ⟨hc, hhead⟩
    rw [escapeOnce_cons h, hasOddRun_cons halone, escapeChar]
    split
    · exact (isBare_covered hoperator d).trans ih
    · next hplain =>
      have hd : d ≠ '\\' := fun hd => hplain (.inl hd)
      rw [List.singleton_append, isBare_double_cons hd]
      refine (or_iff_right ?_).trans ih
      rintro ⟨hcd, hhead⟩
      exact halone hcd.symm ((head?_escapeOnce hc rest).mp hhead).1

end

/-- The operators that are bare in an escaped text are the pairs with which a run of odd length
ends. -/
theorem isBare_escape_iff {operator : Operator} (h : operator ∈ operators) (text : List Char) :
    IsBare operator (escape text) ↔ ∃ c, operator = .double c ∧ HasOddRun c text := by
  cases operator with
  | single c =>
    refine iff_of_false (fun hbare => ?_) (by rintro ⟨_, hc, _⟩; exact nomatch hc)
    have hc := mem_uncovered_of_isBare (char_ne_backslash_of_mem_operators _ h) hbare
    exact (escaped_escape text).not_single_mem hc h
  | double c =>
    rw [escape_eq_scanEscape, scanEscape_operators, isBare_double_escapeOnce h]
    simp

/-- Five bars are left with a pair.  Four `&` are not, and neither is the `+` between them. -/
theorem isBare_escape_fiveBars :
    .double '|' ∈ operators ∧ HasOddRun '|' "&&+&&|||||".toList ∧
      IsBare (.double '|') (escape "&&+&&|||||".toList) ∧
      ¬IsBare (.single '+') (escape "&&+&&|||||".toList) := by
  have hbar : .double '|' ∈ operators := by decide
  have hrun : HasOddRun '|' "&&+&&|||||".toList := ⟨"&&+&&".toList, 1, [], by decide⟩
  refine ⟨hbar, hrun, (isBare_escape_iff hbar _).mpr ⟨'|', rfl, hrun⟩, fun hbare => ?_⟩
  obtain ⟨c, hc, _⟩ := (isBare_escape_iff (by decide) _).mp hbare
  exact nomatch hc

/-- Of three `&` the last two are a pair that nothing covers. -/
theorem isBare_escape_threeAmpersands :
    .double '&' ∈ operators ∧ escape "&&&".toList = "\\&&&".toList ∧
      IsBare (.double '&') (escape "&&&".toList) := by
  have hescape : escape "&&&".toList = "\\&&&".toList := by decide
  refine ⟨by decide, hescape, ?_⟩
  rw [hescape]
  exact ⟨"\\&".toList, [], by decide⟩

end SearchQuery.Text
