import SearchQuery.Proofs.Escaping

/-!
# Covered characters

A reader of the query syntax goes from left to right, and a backslash that is not covered covers
the character after it.  `uncovered` is what such a reader meets, and `covers` whether a text
leaves the character after it covered.

Both start with a flag that tells whether the first character is covered already, so that a text
can be read in parts (`uncovered_append`, `covers_append`).  An escaped value shows no operator of
one character and covers nothing behind it, if its first character is not covered.
-/

namespace SearchQuery.Text

/-- The characters that are not covered, without the backslashes that cover. -/
def uncovered (covered : Bool) : List Char → List Char
  | [] => []
  | c :: rest =>
      if covered then uncovered false rest
      else if c = '\\' then uncovered true rest
      else c :: uncovered false rest

/-- Whether the character after the text is covered. -/
def covers (covered : Bool) : List Char → Bool
  | [] => covered
  | c :: rest => covers (!covered && c = '\\') rest

@[simp] theorem covers_nil (covered : Bool) : covers covered [] = covered := rfl

theorem uncovered_cons_of_ne {c : Char} (hc : c ≠ '\\') (rest : List Char) :
    uncovered false (c :: rest) = c :: uncovered false rest := by
  rw [uncovered, if_neg Bool.false_ne_true, if_neg hc]

theorem covers_cons_of_ne {c : Char} (hc : c ≠ '\\') (covered : Bool) (rest : List Char) :
    covers covered (c :: rest) = covers false rest := by
  rw [covers, decide_eq_false hc, Bool.and_false]

theorem uncovered_append (covered : Bool) (text rest : List Char) :
    uncovered covered (text ++ rest) =
      uncovered covered text ++ uncovered (covers covered text) rest := by
  induction text generalizing covered with
  | nil => rfl
  | cons c text ih =>
    cases covered with
    | true => exact ih false
    | false =>
      by_cases hc : c = '\\'
      · subst hc
        exact ih true
      · rw [List.cons_append, uncovered_cons_of_ne hc, uncovered_cons_of_ne hc,
          covers_cons_of_ne hc, ih, List.cons_append]

theorem covers_append (covered : Bool) (text rest : List Char) :
    covers covered (text ++ rest) = covers (covers covered text) rest := by
  induction text generalizing covered with
  | nil => rfl
  | cons c text ih => exact ih _

/-! ## Texts without backslashes -/

theorem uncovered_of_not_mem {text : List Char} (h : '\\' ∉ text) :
    uncovered false text = text := by
  induction text with
  | nil => rfl
  | cons c text ih =>
    rw [List.mem_cons, not_or] at h
    rw [uncovered_cons_of_ne (Ne.symm h.1), ih h.2]

theorem covers_of_not_mem {text : List Char} (h : '\\' ∉ text) : covers false text = false := by
  induction text with
  | nil => rfl
  | cons c text ih =>
    rw [List.mem_cons, not_or] at h
    rw [covers_cons_of_ne (Ne.symm h.1), ih h.2]

/-! ## Escaped texts -/

theorem Escaped.covers_eq {text : List Char} (h : Escaped text) : covers false text = false := by
  induction h with
  | nil => rfl
  | covered _ _ ih => exact ih
  | plain hbackslash _ _ ih => rw [covers_cons_of_ne hbackslash, ih]

theorem Escaped.not_single_mem {text : List Char} (h : Escaped text) {c : Char}
    (hc : c ∈ uncovered false text) : .single c ∉ operators := by
  induction h with
  | nil => exact nomatch hc
  | covered _ _ ih => exact ih hc
  | plain hbackslash hplain _ ih =>
    rw [uncovered_cons_of_ne hbackslash, List.mem_cons] at hc
    rcases hc with rfl | hc
    · exact hplain
    · exact ih hc

end SearchQuery.Text
