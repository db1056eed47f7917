import SearchQuery.Proofs.Trimming
import SearchQuery.Text.Escape

/-!
# Escaping in one scan

`escape` rewrites a text nineteen times.  This module gives the one scan from left to right that
writes the same text, and what a reader may rely on in it.

* `escapeIn_scanEscape` is the step: one more pass over a scanned text is the scan with one more
  operator.  `escape_eq_scanEscape` is the whole run of passes.
* `isPlainName` holds of the names of fields that need no escaping.
* `Escaped` says what every escaped text looks like to a reader: a backslash always covers a
  character that is not blank, and no operator of one character stands uncovered.
  `escaped_escape` is the fact about `escape`, and `Escaped.trimEnd` says that removing blanks at
  the end never cuts a backslash from what it covers.
-/

namespace SearchQuery.Text

/-! ## The scan -/

/-- The character that an operator consists of. -/
def Operator.char : Operator → Char
  | .single c | .double c => c

/-- A character as a scan writes it. -/
def escapeChar (operators : List Operator) (c : Char) : List Char :=
  if c = '\\' ∨ .single c ∈ operators then ['\\', c] else [c]

/-- The text with backslashes, escaped for the given operators in one scan from the left. -/
def scanEscape (operators : List Operator) : List Char → List Char
  | [] => []
  | [c] => escapeChar operators c
  | c :: d :: rest =>
      if c = d ∧ .double c ∈ operators then '\\' :: c :: c :: scanEscape operators rest
      else escapeChar operators c ++ scanEscape operators (d :: rest)

theorem escapeChar_nil_operators (c : Char) : escapeChar [] c = doubleBackslashes [c] := by
  by_cases hc : c = '\\'
  · subst hc
    rfl
  · simp [escapeChar, doubleBackslashes, hc]

theorem scanEscape_nil_operators (text : List Char) :
    scanEscape [] text = doubleBackslashes text := by
  fun_induction scanEscape [] text with
  | case1 => rfl
  | case2 c => exact escapeChar_nil_operators c
  | case3 c d rest h => exact absurd h.2 List.not_mem_nil
  | case4 c d rest h ih =>
    rw [ih, escapeChar_nil_operators]
    simp [doubleBackslashes]

/-- A character that begins no operator is written as it is. -/
theorem scanEscape_cons_of_not_mem {operators : List Operator} {c : Char} (hc : c ≠ '\\')
    (hchar : c ∉ operators.map Operator.char) (rest : List Char) :
    scanEscape operators (c :: rest) = c :: scanEscape operators rest := by
  have hsingle : ¬(c = '\\' ∨ Operator.single c ∈ operators) := by
    rintro (h | h)
    · exact hc h
    · exact hchar (List.mem_map_of_mem h)
  cases rest with
  | nil => simp only [scanEscape, escapeChar, if_neg hsingle]
  | cons d rest =>
    have hpair : ¬(c = d ∧ Operator.double c ∈ operators) := fun h =>
      hchar (List.mem_map_of_mem h.2)
    rw [scanEscape, if_neg hpair, escapeChar, if_neg hsingle]
    rfl

/-- What is written for a text begins with a backslash or with the text's own first character. -/
theorem head?_scanEscape (operators : List Operator) (c : Char) (rest : List Char) :
    (scanEscape operators (c :: rest)).head? = some '\\' ∨
      (scanEscape operators (c :: rest)).head? = some c := by
  have hchar : ∀ text, (escapeChar operators c ++ text).head? = some '\\' ∨
      (escapeChar operators c ++ text).head? = some c := by
    intro text
    unfold escapeChar
    split
    · exact .inl rfl
    · exact .inr rfl
  cases rest with
  | nil => simpa [scanEscape] using hchar []
  | cons d rest =>
    rw [scanEscape]
    split
    · exact .inl rfl
    · exact hchar _

/-! ## One more operator of one character -/

section Single

variable {operators : List Operator} {c : Char}

theorem escapeIn_single_append (c : Char) (text rest : List Char) :
    (Operator.single c).escapeIn (text ++ rest) =
      (Operator.single c).escapeIn text ++ (Operator.single c).escapeIn rest := by
  simp [Operator.escapeIn]

theorem escapeIn_single_cons_of_ne {a : Char} (ha : a ≠ c) (rest : List Char) :
    (Operator.single c).escapeIn (a :: rest) = a :: (Operator.single c).escapeIn rest := by
  simp [Operator.escapeIn, ha]

theorem escapeIn_single_escapeChar (hc : c ≠ '\\') (hnew : .single c ∉ operators) (a : Char) :
    (Operator.single c).escapeIn (escapeChar operators a) =
      escapeChar (operators ++ [.single c]) a := by
  by_cases ha : a = c
  · subst ha
    simp [escapeChar, hc, hnew, Operator.escapeIn]
  · by_cases hold : a = '\\' ∨ .single a ∈ operators
    · have hold' : a = '\\' ∨ Operator.single a ∈ operators ++ [.single c] :=
        hold.imp_right (List.mem_append_left _)
      rw [escapeChar, escapeChar, if_pos hold, if_pos hold',
        escapeIn_single_cons_of_ne (Ne.symm hc), escapeIn_single_cons_of_ne ha]
      rfl
    · have hold' : ¬(a = '\\' ∨ Operator.single a ∈ operators ++ [.single c]) := by
        simpa [ha] using hold
      rw [escapeChar, escapeChar, if_neg hold, if_neg hold', escapeIn_single_cons_of_ne ha]
      rfl

theorem escapeIn_single_scanEscape (hc : c ≠ '\\') (hnew : c ∉ operators.map Operator.char)
    (text : List Char) :
    (Operator.single c).escapeIn (scanEscape operators text) =
      scanEscape (operators ++ [.single c]) text := by
  have hsingle : .single c ∉ operators := fun h => hnew (List.mem_map_of_mem h)
  fun_induction scanEscape operators text with
  | case1 => rfl
  | case2 a => exact escapeIn_single_escapeChar hc hsingle a
  | case3 a d rest h ih =>
    obtain ⟨rfl, hmem⟩ := h
    have ha : a ≠ c := by
      rintro rfl
      exact hnew (List.mem_map_of_mem hmem)
    have hpair : a = a ∧ Operator.double a ∈ operators ++ [.single c] :=
      ⟨rfl, List.mem_append_left _ hmem⟩
    rw [scanEscape, if_pos hpair, escapeIn_single_cons_of_ne (Ne.symm hc),
      escapeIn_single_cons_of_ne ha, escapeIn_single_cons_of_ne ha, ih]
  | case4 a d rest h ih =>
    have hpair : ¬(a = d ∧ Operator.double a ∈ operators ++ [.single c]) := by
      simpa using h
    rw [scanEscape, if_neg hpair, escapeIn_single_append,
      escapeIn_single_escapeChar hc hsingle, ih]

end Single

/-! ## One more operator of two characters -/

/-- What is already written stands in front of everything that follows. -/
theorem escapePairs_append (c : Char) (done before text : List Char) :
    escapePairs c (done ++ before) text = before.reverse ++ escapePairs c done text := by
  fun_induction escapePairs c done text with
  | case1 done a b rest h ih => rw [escapePairs, if_pos h, ← ih]; rfl
  | case2 done a b rest h ih => rw [escapePairs, if_neg h, ← ih]; rfl
  | case3 done a => simp [escapePairs]
  | case4 done => simp [escapePairs]

theorem escapePairs_pair (c : Char) (rest : List Char) :
    escapePairs c [] (c :: c :: rest) = '\\' :: c :: c :: escapePairs c [] rest := by
  rw [escapePairs, if_pos ⟨rfl, rfl⟩]
  exact escapePairs_append c [] [c, c, '\\'] rest

theorem escapePairs_cons {c a : Char} {rest : List Char} (h : a ≠ c ∨ rest.head? ≠ some c) :
    escapePairs c [] (a :: rest) = a :: escapePairs c [] rest := by
  cases rest with
  | nil => rfl
  | cons b rest =>
    have hpair : ¬(a = c ∧ b = c) := by
      rintro ⟨rfl, rfl⟩
      simp at h
    rw [escapePairs, if_neg hpair]
    exact escapePairs_append c [] [a] (b :: rest)

section Double

variable {operators : List Operator} {c : Char}

theorem escapeChar_double (operators : List Operator) (c a : Char) :
    escapeChar (operators ++ [.double c]) a = escapeChar operators a := by
  simp [escapeChar]

/-- A scanned character that is not the new operator's passes the new pass as it stands. -/
theorem escapePairs_escapeChar_append (hc : c ≠ '\\') {a : Char} {rest : List Char}
    (h : a ≠ c ∨ rest.head? ≠ some c) :
    escapePairs c [] (escapeChar operators a ++ rest) =
      escapeChar operators a ++ escapePairs c [] rest := by
  unfold escapeChar
  split
  · change escapePairs c [] ('\\' :: a :: rest) = '\\' :: a :: escapePairs c [] rest
    rw [escapePairs_cons (.inl (Ne.symm hc)), escapePairs_cons h]
  · exact escapePairs_cons h

theorem escapeIn_double_scanEscape (hc : c ≠ '\\') (hnew : c ∉ operators.map Operator.char)
    (text : List Char) :
    (Operator.double c).escapeIn (scanEscape operators text) =
      scanEscape (operators ++ [.double c]) text := by
  change escapePairs c [] (scanEscape operators text) = _
  -- The scan with the new operator says where a pair of it is taken, so the induction is on it.
  fun_induction scanEscape (operators ++ [.double c]) text with
  | case1 => rfl
  | case2 a =>
    rw [escapeChar_double, scanEscape]
    have hpass : a ≠ c ∨ ([] : List Char).head? ≠ some c := .inr nofun
    have hwritten := @escapePairs_escapeChar_append operators c hc a [] hpass
    simpa [escapePairs] using hwritten
  | case3 a d rest h ih =>
    obtain ⟨rfl, hmem⟩ := h
    by_cases ha : a = c
    · subst ha
      rw [scanEscape_cons_of_not_mem hc hnew, scanEscape_cons_of_not_mem hc hnew,
        escapePairs_pair, ih]
    · have hold : .double a ∈ operators := by simpa [ha] using hmem
      rw [scanEscape, if_pos ⟨rfl, hold⟩, escapePairs_cons (.inl (Ne.symm hc)),
        escapePairs_cons (.inl ha), escapePairs_cons (.inl ha), ih]
  | case4 a d rest h ih =>
    have hold : ¬(a = d ∧ Operator.double a ∈ operators) := fun hmem =>
      h ⟨hmem.1, List.mem_append_left _ hmem.2⟩
    have hpass : a ≠ c ∨ (scanEscape operators (d :: rest)).head? ≠ some c := by
      by_cases ha : a = c
      · subst ha
        have hnew : .double a ∈ operators ++ [.double a] :=
          List.mem_append_right _ (List.mem_singleton.mpr rfl)
        have hd : d ≠ a := fun hd => h ⟨hd.symm, hnew⟩
        refine .inr fun hhead => ?_
        rcases head?_scanEscape operators d rest with hfirst | hfirst
        · exact hc (Option.some.inj (hhead.symm.trans hfirst))
        · exact hd (Option.some.inj (hfirst.symm.trans hhead))
      · exact .inl ha
    rw [scanEscape, if_neg hold, escapePairs_escapeChar_append hc hpass, escapeChar_double, ih]

end Double

/-! ## All passes -/

/-- One more pass over a scanned text is the scan with one more operator, if the operators so far
have nothing in common with it. -/
theorem escapeIn_scanEscape {operators : List Operator} {operator : Operator}
    (hoperator : operator.char ≠ '\\') (hnew : operator.char ∉ operators.map Operator.char)
    (text : List Char) :
    operator.escapeIn (scanEscape operators text) = scanEscape (operators ++ [operator]) text := by
  cases operator with
  | single c => exact escapeIn_single_scanEscape hoperator hnew text
  | double c => exact escapeIn_double_scanEscape hoperator hnew text

theorem foldl_escapeIn_scanEscape {done operators : List Operator}
    (hbackslash : ∀ operator ∈ operators, operator.char ≠ '\\')
    (hdistinct : ((done ++ operators).map Operator.char).Nodup) (text : List Char) :
    operators.foldl (fun text operator => operator.escapeIn text) (scanEscape done text) =
      scanEscape (done ++ operators) text := by
  induction operators generalizing done with
  | nil => simp
  | cons operator operators ih =>
    have hnew : operator.char ∉ done.map Operator.char := by
      intro hmem
      simp only [List.map_append, List.map_cons, List.nodup_append] at hdistinct
      exact hdistinct.2.2 _ hmem _ List.mem_cons_self rfl
    rw [List.foldl_cons, escapeIn_scanEscape (hbackslash _ List.mem_cons_self) hnew,
      ih (fun _ h => hbackslash _ (List.mem_cons_of_mem _ h)) (by simpa using hdistinct)]
    simp

/-- The passes of `escape` together are one scan. -/
theorem escape_eq_scanEscape (text : List Char) : escape text = scanEscape operators text := by
  rw [escape, ← scanEscape_nil_operators,
    foldl_escapeIn_scanEscape (by decide) (by decide), List.nil_append]

/-! ## What a reader of an escaped text meets -/

/-- A text in which every backslash covers a character that is not blank, and in which no operator
of one character stands uncovered. -/
inductive Escaped : List Char → Prop where
  | nil : Escaped []
  | covered {c : Char} {rest : List Char} (hblank : isBlank c = false) (hrest : Escaped rest) :
      Escaped ('\\' :: c :: rest)
  | plain {c : Char} {rest : List Char} (hbackslash : c ≠ '\\') (hplain : .single c ∉ operators)
      (hrest : Escaped rest) : Escaped (c :: rest)

/-- Whether a character can stand uncovered in an escaped text. -/
def isOrdinary (c : Char) : Bool :=
  c ≠ '\\' && .single c ∉ operators

theorem escaped_of_isOrdinary {text : List Char} (h : text.all isOrdinary = true) :
    Escaped text := by
  induction text with
  | nil => exact .nil
  | cons c text ih =>
    rw [List.all_cons, Bool.and_eq_true] at h
    obtain ⟨hbackslash, hsingle⟩ := Bool.and_eq_true_iff.mp h.1
    exact .plain (of_decide_eq_true hbackslash) (of_decide_eq_true hsingle) (ih h.2)

theorem not_isBlank_char_of_mem_operators :
    ∀ operator ∈ operators, isBlank operator.char = false := by decide

theorem char_ne_backslash_of_mem_operators :
    ∀ operator ∈ operators, operator.char ≠ '\\' := by decide

theorem not_single_mem_of_double_mem {c : Char} (h : .double c ∈ operators) :
    .single c ∉ operators := by
  simp only [operators, List.mem_cons, Operator.double.injEq, reduceCtorEq, false_or, or_false,
    List.not_mem_nil] at h
  rcases h with rfl | rfl <;> decide

theorem escaped_escapeChar_append (c : Char) {rest : List Char} (hrest : Escaped rest) :
    Escaped (escapeChar operators c ++ rest) := by
  unfold escapeChar
  split
  · rename_i h
    refine .covered ?_ hrest
    rcases h with rfl | h
    · decide
    · exact not_isBlank_char_of_mem_operators _ h
  · rename_i h
    exact .plain (fun hc => h (.inl hc)) (fun hc => h (.inr hc)) hrest

theorem escaped_escape (text : List Char) : Escaped (escape text) := by
  rw [escape_eq_scanEscape]
  fun_induction scanEscape operators text with
  | case1 => exact .nil
  | case2 c => simpa using escaped_escapeChar_append c .nil
  | case3 c d rest h ih =>
    -- Of a pair the first character is covered, and the second is no operator by itself.
    have hsingle := not_single_mem_of_double_mem h.2
    have hbackslash : c ≠ '\\' := char_ne_backslash_of_mem_operators _ h.2
    exact .covered (not_isBlank_char_of_mem_operators _ h.2) (.plain hbackslash hsingle ih)
  | case4 c d rest h ih => exact escaped_escapeChar_append c ih

/-- Removing blanks at the end of an escaped text leaves an escaped text. -/
theorem Escaped.trimEnd {text : List Char} (h : Escaped text) : Escaped (trimEnd text) := by
  induction h with
  | nil => exact .nil
  | covered hblank _ ih =>
    rw [trimEnd_cons_of_not_isBlank (by decide), trimEnd_cons_of_not_isBlank hblank]
    exact .covered hblank ih
  | plain hbackslash hplain _ ih =>
    rw [trimEnd_cons]
    split
    · exact .nil
    · exact .plain hbackslash hplain ih

theorem Escaped.append {text rest : List Char} (h : Escaped text) (hrest : Escaped rest) :
    Escaped (text ++ rest) := by
  induction h with
  | nil => exact hrest
  | covered hblank _ ih => exact .covered hblank ih
  | plain hbackslash hplain _ ih => exact .plain hbackslash hplain ih

theorem escaped_intercalate {between : List Char} {texts : List (List Char)}
    (hbetween : Escaped between) (h : ∀ text ∈ texts, Escaped text) :
    Escaped (between.intercalate texts) := by
  induction texts with
  | nil => exact .nil
  | cons text rest ih =>
    have htext := h text List.mem_cons_self
    have hrest := ih fun t ht => h t (List.mem_cons_of_mem _ ht)
    cases rest with
    | nil =>
      rw [List.intercalate_singleton]
      exact htext
    | cons next rest =>
      rw [List.intercalate_cons_cons]
      exact (htext.append hbetween).append hrest

/-- Escaping brings in backslashes and nothing else. -/
theorem mem_of_mem_escape {c : Char} {text : List Char} (hc : c ∈ escape text) :
    c = '\\' ∨ c ∈ text := by
  have hchar : ∀ d, c ∈ escapeChar operators d → c = '\\' ∨ c = d := by
    intro d hd
    unfold escapeChar at hd
    split at hd
    · simpa using hd
    · exact .inr (List.mem_singleton.mp hd)
  rw [escape_eq_scanEscape] at hc
  fun_induction scanEscape operators text with
  | case1 => exact nomatch hc
  | case2 d => simpa using hchar d hc
  | case3 d e rest h ih =>
    obtain ⟨rfl, _⟩ := h
    simp only [List.mem_cons] at hc ⊢
    rcases hc with hc | hc | hc | hc
    · exact .inl hc
    · exact .inr (.inl hc)
    · exact .inr (.inl hc)
    · exact (ih hc).imp_right fun h => .inr (.inr h)
  | case4 d e rest h ih =>
    rcases List.mem_append.mp hc with hc | hc
    · refine (hchar d hc).imp_right ?_
      rintro rfl
      exact List.mem_cons_self
    · exact (ih hc).imp_right (List.mem_cons_of_mem d)

theorem trimEnd_escape {text : List Char} (h : ∀ c ∈ text, isBlank c = false) :
    trimEnd (escape text) = escape text := by
  refine trimEnd_eq_self fun c hc => ?_
  rcases mem_of_mem_escape (List.mem_of_mem_getLast? hc) with rfl | hmem
  · decide
  · exact h c hmem

/-! ## Plain names -/

/-- Whether a character is neither blank nor a backslash nor part of an operator. -/
def isPlainChar (c : Char) : Bool :=
  !isBlank c && c ≠ '\\' && operators.all fun operator => operator.char ≠ c

/-- Whether a text has no character that would have to be escaped or could be trimmed. -/
def isPlainText (text : String) : Bool :=
  text.toList.all isPlainChar

/-- Whether a name has characters, and none that would have to be escaped or could be trimmed. -/
def isPlainName (name : String) : Bool :=
  name ≠ "" && name.toList.all isPlainChar

theorem isPlainChar_iff {c : Char} :
    isPlainChar c = true ↔
      isBlank c = false ∧ c ≠ '\\' ∧ ∀ operator ∈ operators, operator.char ≠ c := by
  simp [isPlainChar, and_assoc]

theorem isPlainName_iff {name : String} :
    isPlainName name = true ↔
      name.toList ≠ [] ∧ ∀ c ∈ name.toList, isPlainChar c = true := by
  simp [isPlainName]

theorem isPlainChar_of_isPlainText {text : String} (h : isPlainText text = true) :
    ∀ c ∈ text.toList, isPlainChar c = true :=
  List.all_eq_true.mp h

theorem isPlainText_of_isPlainName {name : String} (h : isPlainName name = true) :
    isPlainText name = true := by
  simp only [isPlainName, Bool.and_eq_true] at h
  exact h.2

theorem ne_of_isPlainChar {c d : Char} (hc : isPlainChar c = true) (hd : isPlainChar d = false) :
    c ≠ d := by
  intro heq
  rw [← heq, hc] at hd
  exact nomatch hd

theorem escaped_of_isPlainChar {text : List Char} (h : ∀ c ∈ text, isPlainChar c = true) :
    Escaped text := by
  refine escaped_of_isOrdinary (List.all_eq_true.mpr fun c hc => ?_)
  obtain ⟨_, hbackslash, hoperators⟩ := isPlainChar_iff.mp (h c hc)
  have hsingle : .single c ∉ operators := fun hmem => hoperators _ hmem rfl
  simp [isOrdinary, hbackslash, hsingle]

/-- A text without operators is written as it is. -/
theorem escape_of_isPlainChar {text : List Char} (h : ∀ c ∈ text, isPlainChar c = true) :
    escape text = text := by
  rw [escape_eq_scanEscape]
  induction text with
  | nil => rfl
  | cons c text ih =>
    obtain ⟨_, hbackslash, hoperators⟩ := isPlainChar_iff.mp (h c List.mem_cons_self)
    have hchar : c ∉ operators.map Operator.char := by
      intro hmem
      obtain ⟨operator, hoperator, heq⟩ := List.mem_map.mp hmem
      exact hoperators operator hoperator heq
    rw [scanEscape_cons_of_not_mem hbackslash hchar,
      ih fun d hd => h d (List.mem_cons_of_mem _ hd)]

end SearchQuery.Text
