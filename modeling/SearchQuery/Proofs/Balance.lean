import SearchQuery.Proofs.Covering
import SearchQuery.Query.Emission

/-!
# Balanced parentheses

A text is balanced if the parentheses in it that are not covered pair up, and if it covers nothing
that stands behind it.  Balanced texts are built by putting balanced texts one behind another and
into parentheses.  `Balanced.eq_of_append_close` is what makes them readable: the parenthesis that
closes around a balanced text is the first one that can.
-/

namespace SearchQuery.Text

/-- How often a character stands in a text without being covered. -/
def occurrences (c : Char) (text : List Char) : Nat :=
  (uncovered false text).count c

/-- No beginning of the text closes more than it opens, the whole text closes all that it opens,
and no backslash is left dangling at its end. -/
structure Balanced (text : List Char) : Prop where
  closed_le : ∀ before, before <+: text → occurrences ')' before ≤ occurrences '(' before
  closed_eq : occurrences ')' text = occurrences '(' text
  covers_eq : covers false text = false

theorem occurrences_append {text : List Char} (h : covers false text = false) (c : Char)
    (rest : List Char) :
    occurrences c (text ++ rest) = occurrences c text + occurrences c rest := by
  rw [occurrences, uncovered_append, h, List.count_append, occurrences, occurrences]

theorem occurrences_opening_cons (text : List Char) :
    occurrences '(' ('(' :: text) = occurrences '(' text + 1 ∧
      occurrences ')' ('(' :: text) = occurrences ')' text := by
  rw [occurrences, occurrences, uncovered_cons_of_ne (by decide)]
  exact ⟨List.count_cons_self, List.count_cons_of_ne (by decide)⟩

theorem occurrences_concat_closing {text : List Char} (h : covers false text = false) :
    occurrences '(' (text ++ [')']) = occurrences '(' text ∧
      occurrences ')' (text ++ [')']) = occurrences ')' text + 1 := by
  rw [occurrences_append h, occurrences_append h]
  exact ⟨rfl, rfl⟩

theorem Balanced.append {text rest : List Char} (h : Balanced text) (hrest : Balanced rest) :
    Balanced (text ++ rest) where
  closed_le before hbefore := by
    rcases List.prefix_or_prefix_of_prefix hbefore (List.prefix_append text rest) with hin | hout
    · exact h.closed_le before hin
    · obtain ⟨after, rfl⟩ := hout
      have hafter := hrest.closed_le after ((List.prefix_append_right_inj text).mp hbefore)
      have heq := h.closed_eq
      rw [occurrences_append h.covers_eq, occurrences_append h.covers_eq]
      omega
  closed_eq := by
    rw [occurrences_append h.covers_eq, occurrences_append h.covers_eq, h.closed_eq,
      hrest.closed_eq]
  covers_eq := by rw [covers_append, h.covers_eq, hrest.covers_eq]

/-- A text in which every parenthesis is covered. -/
theorem balanced_of_uncovered {text : List Char} (hcovers : covers false text = false)
    (h : ∀ c ∈ uncovered false text, c ≠ '(' ∧ c ≠ ')') : Balanced text := by
  have hnone : ∀ before, before <+: text →
      occurrences '(' before = 0 ∧ occurrences ')' before = 0 := by
    intro before hbefore
    obtain ⟨after, rfl⟩ := hbefore
    rw [uncovered_append] at h
    have hnot : ∀ c ∈ uncovered false before, c ≠ '(' ∧ c ≠ ')' := fun c hc =>
      h c (List.mem_append_left _ hc)
    exact ⟨List.count_eq_zero.mpr fun hmem => (hnot _ hmem).1 rfl,
      List.count_eq_zero.mpr fun hmem => (hnot _ hmem).2 rfl⟩
  refine ⟨fun before hbefore => ?_, ?_, hcovers⟩
  · obtain ⟨hopen, hclose⟩ := hnone before hbefore
    omega
  · obtain ⟨hopen, hclose⟩ := hnone text (List.prefix_refl text)
    omega

theorem balanced_of_not_mem {text : List Char} (hcovers : covers false text = false)
    (hopen : '(' ∉ uncovered false text) (hclose : ')' ∉ uncovered false text) :
    Balanced text :=
  balanced_of_uncovered hcovers fun _ hc =>
    ⟨fun heq => hopen (heq ▸ hc), fun heq => hclose (heq ▸ hc)⟩

/-- Whether a character is neither a parenthesis nor a backslash. -/
def isFlat (c : Char) : Bool :=
  c ≠ '(' && c ≠ ')' && c ≠ '\\'

theorem balanced_of_isFlat {text : List Char} (h : text.all isFlat = true) : Balanced text := by
  have hne : ∀ c ∈ text, (c ≠ '(' ∧ c ≠ ')') ∧ c ≠ '\\' := by
    simpa [isFlat] using h
  have hbackslash : '\\' ∉ text := fun hmem => (hne _ hmem).2 rfl
  refine balanced_of_uncovered (covers_of_not_mem hbackslash) ?_
  rw [uncovered_of_not_mem hbackslash]
  exact fun c hc => (hne c hc).1

theorem Escaped.balanced {text : List Char} (h : Escaped text) : Balanced text := by
  refine balanced_of_uncovered h.covers_eq fun c hc => ⟨?_, ?_⟩
  · rintro rfl
    exact h.not_single_mem hc (by decide)
  · rintro rfl
    exact h.not_single_mem hc (by decide)

theorem Balanced.parenthesized {text : List Char} (h : Balanced text) :
    Balanced (parenthesized text) where
  closed_le before hbefore := by
    rw [SearchQuery.parenthesized, List.prefix_cons_iff] at hbefore
    rcases hbefore with rfl | ⟨inside, rfl, hinside⟩
    · exact Nat.le_refl _
    · obtain ⟨hopen, hclose⟩ := occurrences_opening_cons inside
      rcases List.prefix_concat_iff.mp hinside with rfl | hinside
      · obtain ⟨hopen', hclose'⟩ := occurrences_concat_closing h.covers_eq
        have heq := h.closed_eq
        omega
      · have hle := h.closed_le inside hinside
        omega
  closed_eq := by
    obtain ⟨hopen, hclose⟩ := occurrences_opening_cons (text ++ [')'])
    obtain ⟨hopen', hclose'⟩ := occurrences_concat_closing h.covers_eq
    have heq := h.closed_eq
    rw [SearchQuery.parenthesized]
    omega
  covers_eq := by
    rw [SearchQuery.parenthesized, covers_cons_of_ne (by decide), covers_append, h.covers_eq]
    rfl

theorem balanced_intercalate {between : List Char} {texts : List (List Char)}
    (hbetween : Balanced between) (h : ∀ text ∈ texts, Balanced text) :
    Balanced (between.intercalate texts) := by
  induction texts with
  | nil => exact balanced_of_isFlat rfl
  | cons text rest ih =>
    rw [List.forall_mem_cons] at h
    cases rest with
    | nil =>
      rw [List.intercalate_singleton]
      exact h.1
    | cons next rest =>
      rw [List.intercalate_cons_cons]
      exact (h.1.append hbetween).append (ih h.2)

/-- The parenthesis that closes around a balanced text stands at one place only. -/
theorem Balanced.eq_of_append_close {text text' rest rest' : List Char} (h : Balanced text)
    (h' : Balanced text') (heq : text ++ ')' :: rest = text' ++ ')' :: rest') : text = text' := by
  -- If one text were longer, it would begin with the other and its closing parenthesis.
  have hshort : ∀ {short long after : List Char}, Balanced short → Balanced long →
      long ≠ short ++ ')' :: after := by
    intro short long after hbalanced hlong hlonger
    have hprefix : short ++ [')'] <+: long := ⟨after, by simp [hlonger]⟩
    have hle := hlong.closed_le _ hprefix
    have heq := hbalanced.closed_eq
    obtain ⟨hopen, hclose⟩ := occurrences_concat_closing hbalanced.covers_eq
    omega
  rcases List.append_eq_append_iff.mp heq with ⟨after, hlong, hafter⟩ | ⟨after, hlong, hafter⟩
  · cases after with
    | nil => rw [hlong, List.append_nil]
    | cons c after =>
      obtain ⟨rfl, _⟩ := List.cons.inj hafter
      exact absurd hlong (hshort h h')
  · cases after with
    | nil => rw [hlong, List.append_nil]
    | cons c after =>
      obtain ⟨rfl, _⟩ := List.cons.inj hafter
      exact absurd hlong (hshort h' h)

end SearchQuery.Text
