import SearchQuery.Text.Blank

/-!
# Trimmed texts

A character that is not blank shields everything on its other side: `trim_append_cons` trims a
text with such a character inside by trimming its two ends apart.  `IsTrimmed` holds of the texts
that trimming leaves alone, and the lemmas below it build such texts: from a trimmed text
(`isTrimmed_trim`), and by joining trimmed texts with a separator (`IsTrimmed.intercalate`).
-/

namespace SearchQuery.Text

/-! ## The two ends -/

theorem trimEnd_cons (c : Char) (text : List Char) :
    trimEnd (c :: text) =
      if trimEnd text = [] ∧ isBlank c = true then [] else c :: trimEnd text := by
  simp only [trimEnd, List.reverse_cons, List.dropWhile_append, List.reverse_eq_nil_iff]
  by_cases hrest : text.reverse.dropWhile isBlank = []
  · by_cases hc : isBlank c = true <;> simp [hrest, hc]
  · simp [hrest]

theorem trimEnd_cons_of_not_isBlank {c : Char} (hc : isBlank c = false) (text : List Char) :
    trimEnd (c :: text) = c :: trimEnd text := by
  rw [trimEnd_cons, if_neg (by simp [hc])]

theorem trimEnd_append_cons {c : Char} (hc : isBlank c = false) (before after : List Char) :
    trimEnd (before ++ c :: after) = before ++ c :: trimEnd after := by
  induction before with
  | nil => exact trimEnd_cons_of_not_isBlank hc after
  | cons d before ih =>
    rw [List.cons_append, trimEnd_cons, ih, if_neg (by simp)]
    rfl

theorem mem_of_mem_trimEnd {c : Char} {text : List Char} (h : c ∈ trimEnd text) : c ∈ text := by
  rw [trimEnd, List.mem_reverse] at h
  exact List.mem_reverse.mp ((List.dropWhile_sublist isBlank).mem h)

theorem trimStart_append_cons {c : Char} (hc : isBlank c = false) (before after : List Char) :
    trimStart (before ++ c :: after) = trimStart before ++ c :: after := by
  induction before with
  | nil => simp [trimStart, hc]
  | cons d before ih =>
    by_cases hd : isBlank d = true
    · rw [List.cons_append, trimStart_cons_of_isBlank hd, trimStart_cons_of_isBlank hd, ih]
    · rw [Bool.not_eq_true] at hd
      rw [List.cons_append, trimStart_cons_of_not_isBlank hd, trimStart_cons_of_not_isBlank hd]
      rfl

/-- A character that is not blank keeps the two ends of a text apart. -/
theorem trim_append_cons {c : Char} (hc : isBlank c = false) (before after : List Char) :
    trim (before ++ c :: after) = trimStart before ++ c :: trimEnd after := by
  rw [trim, trimStart_append_cons hc, trimEnd_append_cons hc]

/-! ## Texts that trimming leaves alone -/

/-- The text neither begins nor ends with a blank. -/
structure IsTrimmed (text : List Char) : Prop where
  head : ∀ c ∈ text.head?, isBlank c = false
  last : ∀ c ∈ text.getLast?, isBlank c = false

theorem trimStart_eq_self {text : List Char} (h : ∀ c ∈ text.head?, isBlank c = false) :
    trimStart text = text := by
  cases text with
  | nil => rfl
  | cons c text => exact trimStart_cons_of_not_isBlank (h c rfl) text

theorem trimEnd_eq_self {text : List Char} (h : ∀ c ∈ text.getLast?, isBlank c = false) :
    trimEnd text = text := by
  rw [trimEnd, List.getLast?_eq_head?_reverse] at *
  rw [show text.reverse.dropWhile isBlank = text.reverse from trimStart_eq_self h,
    List.reverse_reverse]

theorem IsTrimmed.trim_eq {text : List Char} (h : IsTrimmed text) : trim text = text := by
  rw [trim, trimStart_eq_self h.head, trimEnd_eq_self h.last]

theorem IsTrimmed.trimEnd_eq {text : List Char} (h : IsTrimmed text) : trimEnd text = text :=
  trimEnd_eq_self h.last

/-- Nothing is left of the blanks about a trimmed text. -/
theorem trim_surrounded {before text after : List Char} (h : IsTrimmed text) (hne : text ≠ [])
    (hbefore : ∀ c ∈ before, isBlank c = true) (hafter : ∀ c ∈ after, isBlank c = true) :
    trim (before ++ text ++ after) = text := by
  have hstart : trimStart (before ++ (text ++ after)) = text ++ after := by
    rw [trimStart, List.dropWhile_append_of_pos hbefore, ← trimStart]
    obtain ⟨c, rest, rfl⟩ := List.exists_cons_of_ne_nil hne
    exact trimStart_eq_self h.head
  have hend : trimEnd (text ++ after) = text := by
    rw [trimEnd, List.reverse_append, List.dropWhile_append_of_pos, ← trimEnd, h.trimEnd_eq]
    exact fun c hc => hafter c (List.mem_reverse.mp hc)
  rw [trim, List.append_assoc, hstart, hend]

theorem not_isBlank_of_mem_head?_trimStart {text : List Char} {c : Char}
    (hc : c ∈ (trimStart text).head?) : isBlank c = false := by
  have h := List.head?_dropWhile_not isBlank text
  rw [trimStart] at hc
  rw [Option.mem_def.mp hc] at h
  exact h

theorem not_isBlank_of_mem_getLast?_trimEnd {text : List Char} {c : Char}
    (hc : c ∈ (trimEnd text).getLast?) : isBlank c = false := by
  rw [trimEnd, List.getLast?_reverse] at hc
  exact not_isBlank_of_mem_head?_trimStart hc

theorem head?_trimEnd_of_ne_nil {text : List Char} (h : trimEnd text ≠ []) :
    (trimEnd text).head? = text.head? := by
  cases text with
  | nil => rfl
  | cons c text =>
    rw [trimEnd_cons] at h ⊢
    split at h
    · exact absurd rfl h
    · rename_i hkept
      rw [if_neg hkept]
      rfl

theorem isTrimmed_trim (text : List Char) : IsTrimmed (trim text) where
  head c hc := by
    have hne : trimEnd (trimStart text) ≠ [] := by
      rintro hnil
      rw [trim, hnil] at hc
      exact nomatch hc
    rw [trim, head?_trimEnd_of_ne_nil hne] at hc
    exact not_isBlank_of_mem_head?_trimStart hc
  last c hc := not_isBlank_of_mem_getLast?_trimEnd hc

theorem isTrimmed_nil : IsTrimmed [] where
  head _ hc := nomatch hc
  last _ hc := nomatch hc

/-- Something trimmed after a character that is not blank. -/
theorem IsTrimmed.cons {c : Char} (hc : isBlank c = false) {text : List Char}
    (h : IsTrimmed text) : IsTrimmed (c :: text) where
  head d hd := by
    cases hd
    exact hc
  last d hd := by
    cases text with
    | nil =>
      cases hd
      exact hc
    | cons a text => exact h.last d (by simpa using hd)

/-- A text between two characters that are not blank, whatever stands between them. -/
theorem isTrimmed_between {c d : Char} (hc : isBlank c = false) (hd : isBlank d = false)
    (text : List Char) : IsTrimmed (c :: (text ++ [d])) where
  head a ha := by
    cases ha
    exact hc
  last a ha := by
    rw [← List.cons_append, List.getLast?_concat] at ha
    cases ha
    exact hd

/-- Trimmed texts with something between them. -/
theorem IsTrimmed.append {before between after : List Char} (hbefore : IsTrimmed before)
    (hafter : IsTrimmed after) (hne : before ≠ []) (hne' : after ≠ []) :
    IsTrimmed (before ++ between ++ after) where
  head c hc := by
    obtain ⟨d, before, rfl⟩ := List.exists_cons_of_ne_nil hne
    exact hbefore.head c hc
  last c hc := by
    rw [List.getLast?_append] at hc
    cases hlast : after.getLast? with
    | none => exact absurd (List.getLast?_eq_none_iff.mp hlast) hne'
    | some d =>
      rw [hlast, Option.some_or] at hc
      exact hafter.last c (hlast ▸ hc)

theorem intercalate_ne_nil {between : List Char} {texts : List (List Char)} (h : texts ≠ [])
    (hne : ∀ text ∈ texts, text ≠ []) : between.intercalate texts ≠ [] := by
  obtain ⟨text, rest, rfl⟩ := List.exists_cons_of_ne_nil h
  have htext : text ≠ [] := hne text List.mem_cons_self
  cases rest with
  | nil => simpa using htext
  | cons next rest => simp [htext]

/-- Each of the texts stands in what they are put together to. -/
theorem infix_intercalate_of_mem {between text : List Char} {texts : List (List Char)}
    (h : text ∈ texts) : text <:+: between.intercalate texts := by
  induction texts with
  | nil => exact nomatch h
  | cons first rest ih =>
    cases rest with
    | nil =>
      obtain rfl := List.mem_singleton.mp h
      simp only [List.intercalate_singleton, List.infix_rfl]
    | cons second rest =>
      rw [List.intercalate_cons_cons]
      rcases List.mem_cons.mp h with rfl | h
      · exact ⟨[], between ++ between.intercalate (second :: rest), by simp⟩
      · exact (ih h).trans (List.suffix_append _ _).isInfix

theorem length_le_of_mem_intercalate {between text : List Char} {texts : List (List Char)}
    (h : text ∈ texts) : text.length ≤ (between.intercalate texts).length :=
  (infix_intercalate_of_mem h).length_le

theorem isTrimmed_intercalate {between : List Char} {texts : List (List Char)}
    (h : ∀ text ∈ texts, IsTrimmed text) (hne : ∀ text ∈ texts, text ≠ []) :
    IsTrimmed (between.intercalate texts) := by
  induction texts with
  | nil => exact isTrimmed_nil
  | cons text rest ih =>
    have hrest := ih (fun t ht => h t (List.mem_cons_of_mem _ ht))
      (fun t ht => hne t (List.mem_cons_of_mem _ ht))
    cases rest with
    | nil => simpa using h text List.mem_cons_self
    | cons next rest =>
      rw [List.intercalate_cons_cons]
      refine (h text List.mem_cons_self).append hrest (hne text List.mem_cons_self) ?_
      exact intercalate_ne_nil (by simp) fun t ht => hne t (List.mem_cons_of_mem _ ht)

end SearchQuery.Text
