import SearchQuery.Proofs.Escaping

/-!
# The order of the passes

`escape` has a pass for every operator, and each pass sees the backslashes that the passes before it
brought in.  None of them takes such a backslash, or what it covers, for something of its own, so
the passes may as well be made in another order.

* `escapeOnce` says what is written for each place of a text.
* `scanEscape_congr` is the reason why the order is of no matter: a scan asks only which operators
  there are.
* `foldl_escapeIn_of_perm` is the run of all passes in any order.
-/

namespace SearchQuery.Text

/-! ## One scan -/

/-- The text escaped in one scan from the left: a backslash is doubled, two neighbouring `&` or `|`
get one backslash in front of both, and an operator of one character gets one of its own. -/
def escapeOnce : List Char → List Char
  | [] => []
  | '&' :: '&' :: rest => '\\' :: '&' :: '&' :: escapeOnce rest
  | '|' :: '|' :: rest => '\\' :: '|' :: '|' :: escapeOnce rest
  | c :: rest =>
      if c = '\\' ∨ .single c ∈ operators then '\\' :: c :: escapeOnce rest
      else c :: escapeOnce rest

theorem double_mem_operators {c : Char} : .double c ∈ operators ↔ c = '&' ∨ c = '|' := by
  simp [operators]

theorem escapeOnce_pair {c : Char} (hc : .double c ∈ operators) (rest : List Char) :
    escapeOnce (c :: c :: rest) = '\\' :: c :: c :: escapeOnce rest := by
  rcases double_mem_operators.mp hc with rfl | rfl
  · rw [escapeOnce]
  · rw [escapeOnce]

/-- Where no pair begins, a character is written by itself. -/
theorem escapeOnce_cons {c : Char} {rest : List Char}
    (h : ¬(.double c ∈ operators ∧ rest.head? = some c)) :
    escapeOnce (c :: rest) = escapeChar operators c ++ escapeOnce rest := by
  rw [escapeOnce.eq_4, escapeChar]
  · split <;> rfl
  · rintro rest rfl rfl
    exact h ⟨by decide, rfl⟩
  · rintro rest rfl rfl
    exact h ⟨by decide, rfl⟩

/-- Induction along the scan: over a pair at a time where there is one, else over a character. -/
@[elab_as_elim]
theorem escapeOnce_induction {motive : List Char → Prop} (nil : motive [])
    (pair : ∀ c rest, .double c ∈ operators → motive rest → motive (c :: c :: rest))
    (cons : ∀ c rest, ¬(.double c ∈ operators ∧ rest.head? = some c) → motive rest →
      motive (c :: rest)) : ∀ text, motive text
  | [] => nil
  | [c] => cons c [] (by simp) nil
  | c :: d :: rest => by
    by_cases h : .double c ∈ operators ∧ (d :: rest).head? = some c
    · obtain ⟨hc, hd⟩ := h
      obtain rfl := Option.some.inj hd
      exact pair d rest hc (escapeOnce_induction nil pair cons rest)
    · exact cons c (d :: rest) h (escapeOnce_induction nil pair cons (d :: rest))

/-- With all operators the scan is `escapeOnce`. -/
theorem scanEscape_operators (text : List Char) :
    scanEscape operators text = escapeOnce text := by
  fun_induction scanEscape operators text with
  | case1 => rfl
  | case2 c => rw [escapeOnce_cons (by simp), escapeOnce, List.append_nil]
  | case3 c d rest h ih =>
    obtain ⟨rfl, hdouble⟩ := h
    rw [escapeOnce_pair hdouble, ih]
  | case4 c d rest h ih =>
    have hpair : ¬(.double c ∈ operators ∧ (d :: rest).head? = some c) := fun hpair =>
      h ⟨(Option.some.inj hpair.2).symm, hpair.1⟩
    rw [escapeOnce_cons hpair, ih]

/-! ## Any order -/

/-- Scans with the same operators write the same. -/
theorem scanEscape_congr {passes passes' : List Operator}
    (h : ∀ operator, operator ∈ passes ↔ operator ∈ passes') (text : List Char) :
    scanEscape passes text = scanEscape passes' text := by
  have hchar (c : Char) : escapeChar passes c = escapeChar passes' c := by
    simp only [escapeChar, h]
  fun_induction scanEscape passes text with
  | case1 => rfl
  | case2 c => exact hchar c
  | case3 c d rest hpair ih =>
    rw [scanEscape, if_pos ⟨hpair.1, (h _).mp hpair.2⟩, ih]
  | case4 c d rest hpair ih =>
    rw [scanEscape, if_neg fun hpair' => hpair ⟨hpair'.1, (h _).mpr hpair'.2⟩, hchar, ih]

/-- The doubling of backslashes and all passes, in whatever order, are one scan. -/
theorem foldl_escapeIn_of_perm {passes : List Operator} (h : passes.Perm operators)
    (text : List Char) :
    passes.foldl (fun done operator => operator.escapeIn done) (doubleBackslashes text) =
      escapeOnce text := by
  have hbackslash : ∀ operator ∈ passes, operator.char ≠ '\\' := fun operator hmem =>
    char_ne_backslash_of_mem_operators operator (h.mem_iff.mp hmem)
  have hdistinct : (passes.map Operator.char).Nodup :=
    (h.map Operator.char).nodup_iff.mpr (by decide)
  calc
    passes.foldl (fun done operator => operator.escapeIn done) (doubleBackslashes text)
    _ = passes.foldl (fun done operator => operator.escapeIn done) (scanEscape [] text) := by
      rw [scanEscape_nil_operators]
    _ = scanEscape passes text := @foldl_escapeIn_scanEscape [] passes hbackslash hdistinct text
    _ = scanEscape operators text := scanEscape_congr (fun _ => h.mem_iff) text
    _ = escapeOnce text := scanEscape_operators text

/-- A text is escaped as one scan from the left escapes it, and no order of the passes over it
makes a difference. -/
theorem escape_eq_escapeOnce (text : List Char) :
    escape text = escapeOnce text ∧
      ∀ passes : List Operator, passes.Perm operators →
        passes.foldl (fun done operator => operator.escapeIn done) (doubleBackslashes text) =
          escape text := by
  have hescape : escape text = escapeOnce text := foldl_escapeIn_of_perm (.refl operators) text
  refine ⟨hescape, fun passes hpasses => ?_⟩
  rw [hescape]
  exact foldl_escapeIn_of_perm hpasses text

/-- The last operator first, on a backslash, an odd run of `&` and operators next to each other. -/
theorem escape_eq_escapeOnce_reversed :
    operators.reverse.Perm operators ∧
      operators.reverse.foldl (fun done operator => operator.escapeIn done)
        (doubleBackslashes "\\&&&+||".toList) = escape "\\&&&+||".toList ∧
      escape "\\&&&+||".toList = "\\\\\\&&&\\+\\||".toList := by
  have hpasses : operators.reverse.Perm operators := List.reverse_perm operators
  refine ⟨hpasses, (escape_eq_escapeOnce _).2 _ hpasses, ?_⟩
  rw [(escape_eq_escapeOnce _).1]
  decide

end SearchQuery.Text
