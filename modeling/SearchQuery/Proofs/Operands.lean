import Mathlib.Data.List.Chain
import SearchQuery.Query.Emission

/-!
# Operands

Between an opening parenthesis or a space and the next closing parenthesis or space stands an
operand.  Where these are neighbours it is missing: in an empty group, and beside an `OR` that
nothing stands next to.

`Gapless` holds of the texts in which no operand is missing.  Such a text can be taken apart and
put together at its spaces and parentheses: `gapless_spaceSeparated`, `gapless_alternatives` and
`gapless_parenthesized` are equivalences.
-/

namespace SearchQuery

/-- Whether an operand is missing between two neighbouring characters. -/
def isGap (c d : Char) : Bool :=
  (c = '(' || c = ' ') && (d = ')' || d = ' ')

/-- No operand is missing in the text, nor is the text one that is missing between spaces. -/
def Gapless (text : List Char) : Prop :=
  List.IsChain (fun c d => isGap c d = false) (' ' :: (text ++ [' ']))

instance (text : List Char) : Decidable (Gapless text) :=
  inferInstanceAs (Decidable (List.IsChain _ _))

theorem not_gapless_nil : ¬Gapless [] := by decide

/-! ## Spaces and parentheses -/

theorem gapless_append_space {before after : List Char} :
    Gapless (before ++ ' ' :: after) ↔ Gapless before ∧ Gapless after := by
  rw [Gapless, List.append_assoc, List.cons_append, List.isChain_cons_split]
  rfl

theorem gapless_append_or {before after : List Char} :
    Gapless (before ++ " OR ".toList ++ after) ↔ Gapless before ∧ Gapless after := by
  have hword : Gapless ['O', 'R'] := by decide
  have hsplit : before ++ " OR ".toList ++ after =
      before ++ ' ' :: (['O', 'R'] ++ ' ' :: after) := by simp
  rw [hsplit, gapless_append_space, gapless_append_space, and_iff_right hword]

/-- An opening parenthesis expects an operand as a space does. -/
theorem isChain_opening {text : List Char} :
    List.IsChain (fun c d => isGap c d = false) ('(' :: text) ↔
      List.IsChain (fun c d => isGap c d = false) (' ' :: text) := by
  simp [List.isChain_cons, isGap]

/-- A closing parenthesis ends an operand as a space does. -/
theorem isChain_closing {text : List Char} :
    List.IsChain (fun c d => isGap c d = false) (text ++ [')']) ↔
      List.IsChain (fun c d => isGap c d = false) (text ++ [' ']) := by
  simp [List.isChain_append, isGap]

theorem gapless_parenthesized {text : List Char} :
    Gapless (parenthesized text) ↔ Gapless text := by
  have houter : Gapless (parenthesized text) ↔
      List.IsChain (fun c d => isGap c d = false) ('(' :: (text ++ [')'])) := by
    rw [Gapless, parenthesized, List.cons_append, List.append_assoc, List.singleton_append,
      List.isChain_cons_cons, List.isChain_cons_split]
    simp [isGap]
  rw [houter, isChain_opening, ← List.cons_append, isChain_closing]
  rfl

section Joined

variable {between : List Char} {texts : List (List Char)}

/-- If a separator keeps operands apart, it does so between any number of texts. -/
theorem gapless_intercalate (hjoin : ∀ before after,
    Gapless (before ++ between ++ after) ↔ Gapless before ∧ Gapless after) :
    Gapless (between.intercalate texts) ↔ texts ≠ [] ∧ ∀ text ∈ texts, Gapless text := by
  induction texts with
  | nil => simpa using not_gapless_nil
  | cons text rest ih =>
    cases rest with
    | nil => simp
    | cons next rest =>
      rw [List.intercalate_cons_cons, hjoin, ih, List.forall_mem_cons]
      simp

theorem gapless_spaceSeparated :
    Gapless (spaceSeparated texts) ↔ texts ≠ [] ∧ ∀ text ∈ texts, Gapless text := by
  refine gapless_intercalate fun before after => ?_
  rw [List.append_assoc]
  exact gapless_append_space

theorem gapless_alternatives :
    Gapless (alternatives texts) ↔ texts ≠ [] ∧ ∀ text ∈ texts, Gapless text :=
  gapless_intercalate fun _ _ => gapless_append_or

end Joined

/-! ## Other characters -/

/-- What is put behind a gapless text does not touch its end. -/
theorem Gapless.append {before after : List Char} (h : Gapless before) (h' : Gapless after) :
    Gapless (before ++ after) := by
  rw [Gapless, ← List.cons_append, List.isChain_append] at h
  rw [Gapless, List.append_assoc, ← List.cons_append]
  refine h.1.append h'.tail fun c hc d _ => ?_
  have hspace : isGap c ' ' = false := h.2.2 c hc ' ' rfl
  have hopens : (c = '(' || c = ' ') = false := by simpa [isGap] using hspace
  rw [isGap, hopens, Bool.false_and]

theorem gapless_of_forall {text : List Char} (hne : text ≠ [])
    (h : ∀ c ∈ text, c ≠ '(' ∧ c ≠ ')' ∧ c ≠ ' ') : Gapless text := by
  induction text with
  | nil => exact absurd rfl hne
  | cons c text ih =>
    have hc : Gapless [c] := by
      obtain ⟨hopening, hclosing, hspace⟩ := h c List.mem_cons_self
      simp [Gapless, isGap, hopening, hclosing, hspace]
    cases text with
    | nil => exact hc
    | cons d text =>
      exact hc.append (ih (List.cons_ne_nil d text) fun a ha => h a (List.mem_cons_of_mem c ha))

/-! ## What gapless texts have not -/

theorem Gapless.not_isInfix {text : List Char} (h : Gapless text) :
    ¬"()".toList <:+: text := by
  rintro ⟨before, after, rfl⟩
  have hshape : before ++ "()".toList ++ after ++ [' '] =
      before ++ '(' :: ')' :: (after ++ [' ']) := by simp
  rw [Gapless, hshape] at h
  exact absurd (List.isChain_cons_append_cons_cons.mp h).2.1 (by decide)

theorem Gapless.exists_mem_head? {text : List Char} (h : Gapless text) :
    ∃ c ∈ text.head?, c ≠ ')' ∧ c ≠ ' ' := by
  cases text with
  | nil => exact absurd h not_gapless_nil
  | cons c text =>
    have hspace : isGap ' ' c = false := (List.isChain_cons_cons.mp h).1
    refine ⟨c, rfl, ?_⟩
    simpa [isGap] using hspace

theorem Gapless.exists_mem_getLast? {text : List Char} (h : Gapless text) :
    ∃ c ∈ text.getLast?, c ≠ '(' ∧ c ≠ ' ' := by
  rcases List.eq_nil_or_concat text with rfl | ⟨before, c, rfl⟩
  · exact absurd h not_gapless_nil
  · rw [List.concat_eq_append] at h ⊢
    have hspace : isGap c ' ' = false := by
      rw [Gapless, List.append_assoc] at h
      exact (List.isChain_cons_append_cons_cons.mp h).2.1
    refine ⟨c, List.getLast?_concat, ?_⟩
    simpa [isGap] using hspace

end SearchQuery
