import SearchQuery.Predicate.Translation
import SearchQuery.Proofs.Balance
import SearchQuery.Proofs.Emission

/-!
# Trees of connectives

`ConnectiveTree` has the connectives of a predicate over the texts of what they connect, and
`ConnectiveTree.text` writes a tree.  `text_injective` reads it back, if what is connected are
tests of fields: a test names its field where a connective has its parenthesis, and it is
balanced, so that there is one place for the parenthesis that closes.
-/

namespace SearchQuery

open Text

/-- The connectives of a predicate over the texts of what they connect. -/
inductive ConnectiveTree where
  | leaf (text : List Char)
  | negation (operand : ConnectiveTree)
  | conjunction (left right : ConnectiveTree)
  | disjunction (left right : ConnectiveTree)
deriving DecidableEq, Repr

/-- The text names a plain field and requires something balanced of it. -/
def IsTest (text : List Char) : Prop :=
  ∃ field requirement, isPlainName field = true ∧ Balanced requirement ∧
    text = onField field requirement

namespace ConnectiveTree

/-- The query string of a tree. -/
def text : ConnectiveTree → List Char
  | leaf text => text
  | negation operand => SearchQuery.negation operand.text
  | conjunction left right => SearchQuery.conjunction left.text right.text
  | disjunction left right => SearchQuery.disjunction left.text right.text

/-- Whether what the tree connects are tests of fields. -/
def HasTests : ConnectiveTree → Prop
  | leaf text => IsTest text
  | negation operand => operand.HasTests
  | conjunction left right | disjunction left right => left.HasTests ∧ right.HasTests

end ConnectiveTree

/-! ## Tests of fields -/

theorem IsTest.balanced {text : List Char} (h : IsTest text) : Balanced text := by
  obtain ⟨field, requirement, hfield, hrequirement, rfl⟩ := h
  have hname : Balanced (fieldName field) :=
    (escaped_of_isPlainChar (isPlainName_iff.mp hfield).2).balanced
  have hcolon : Balanced [':'] := balanced_of_isFlat rfl
  exact hname.append (hcolon.append hrequirement)

theorem IsTest.head?_ne {text : List Char} (h : IsTest text) : text.head? ≠ some '(' := by
  obtain ⟨field, requirement, hfield, _, rfl⟩ := h
  obtain ⟨c, rest, hc, htext⟩ := Query.exists_onField_eq_cons hfield requirement
  rw [htext]
  intro hhead
  exact ne_of_isPlainChar hc (by decide) (Option.some.inj hhead)

/-- A name that begins like a negation goes on to its colon without a blank. -/
theorem IsTest.ne_negation {text : List Char} (h : IsTest text) (operand : List Char) :
    text ≠ negation operand := by
  obtain ⟨field, requirement, hfield, _, rfl⟩ := h
  have hblank : ' ' ∉ fieldName field := fun hmem =>
    absurd ((isPlainName_iff.mp hfield).2 ' ' hmem) (by decide)
  intro heq
  rcases List.append_eq_append_iff.mp heq with ⟨after, hword, hafter⟩ | ⟨after, hname, _⟩
  · have hcolon : ':' ∉ "NOT ".toList := by decide
    cases after with
    | nil =>
      rw [List.append_nil] at hword
      exact hblank (hword ▸ by decide)
    | cons c after =>
      obtain ⟨rfl, _⟩ := List.cons.inj hafter
      exact hcolon (hword ▸ List.mem_append_right _ List.mem_cons_self)
  · exact hblank (hname ▸ List.mem_append_left _ (by decide))

/-! ## Reading a tree -/

/-- A balanced text in parentheses is read off the front of a text. -/
theorem parenthesized_append_inj {inside inside' rest rest' : List Char} (h : Balanced inside)
    (h' : Balanced inside') (heq : parenthesized inside ++ rest = parenthesized inside' ++ rest') :
    inside = inside' ∧ rest = rest' := by
  simp only [parenthesized, List.cons_append, List.append_assoc, List.cons.injEq, true_and,
    List.nil_append] at heq
  have hinside := h.eq_of_append_close h' heq
  rw [hinside] at heq
  exact ⟨hinside, (List.cons.inj (List.append_cancel_left heq)).2⟩

theorem parenthesized_inj {inside inside' : List Char}
    (heq : parenthesized inside = parenthesized inside') : inside = inside' :=
  List.append_cancel_right (List.cons.inj heq).2

theorem balanced_joined {left word right : List Char} (h : Balanced left)
    (hword : Balanced word) (h' : Balanced right) :
    Balanced (parenthesized left ++ word ++ parenthesized right) :=
  (h.parenthesized.append hword).append h'.parenthesized

theorem joined_inj {left left' word right right' : List Char} (h : Balanced left)
    (h' : Balanced left') (heq : parenthesized left ++ word ++ parenthesized right =
      parenthesized left' ++ word ++ parenthesized right') : left = left' ∧ right = right' := by
  rw [List.append_assoc, List.append_assoc] at heq
  obtain ⟨hleft, hrest⟩ := parenthesized_append_inj h h' heq
  exact ⟨hleft, parenthesized_inj (List.append_cancel_left hrest)⟩

theorem conjunction_ne_disjunction {left left' right right' : List Char} (h : Balanced left)
    (h' : Balanced left') : conjunction left right ≠ disjunction left' right' := by
  intro heq
  rw [conjunction, disjunction, List.append_assoc, List.append_assoc] at heq
  obtain ⟨_, hrest⟩ := parenthesized_append_inj h h' heq
  have hword : 'A' = 'O' := (List.cons.inj (List.cons.inj hrest).2).1
  exact absurd hword (by decide)

namespace ConnectiveTree

theorem balanced_text {tree : ConnectiveTree} (h : tree.HasTests) : Balanced tree.text := by
  induction tree with
  | leaf text => exact h.balanced
  | negation operand ih =>
    exact (balanced_of_isFlat rfl).append (ih h).parenthesized
  | conjunction left right ihleft ihright =>
    exact balanced_joined (ihleft h.1) (balanced_of_isFlat rfl) (ihright h.2)
  | disjunction left right ihleft ihright =>
    exact balanced_joined (ihleft h.1) (balanced_of_isFlat rfl) (ihright h.2)

/-- The query string of a tree of tests determines the tree. -/
theorem text_injective {tree other : ConnectiveTree} (h : tree.HasTests) (h' : other.HasTests)
    (heq : tree.text = other.text) : tree = other := by
  induction tree generalizing other with
  | leaf text =>
    cases other with
    | leaf text' => exact congrArg leaf heq
    | negation operand' => exact absurd heq (h.ne_negation _)
    | conjunction left' right' => exact absurd (congrArg List.head? heq) h.head?_ne
    | disjunction left' right' => exact absurd (congrArg List.head? heq) h.head?_ne
  | negation operand ih =>
    cases other with
    | leaf text' => exact absurd heq.symm (h'.ne_negation _)
    | negation operand' =>
      rw [text, text, SearchQuery.negation, SearchQuery.negation] at heq
      have hoperand : operand = operand' :=
        ih h h' (parenthesized_inj (List.append_cancel_left heq))
      rw [hoperand]
    | conjunction left' right' =>
      exact absurd (List.cons.inj heq).1 (by decide)
    | disjunction left' right' =>
      exact absurd (List.cons.inj heq).1 (by decide)
  | conjunction left right ihleft ihright =>
    cases other with
    | leaf text' => exact absurd (congrArg List.head? heq.symm) h'.head?_ne
    | negation operand' => exact absurd (List.cons.inj heq).1 (by decide)
    | conjunction left' right' =>
      rw [text, text, SearchQuery.conjunction, SearchQuery.conjunction] at heq
      obtain ⟨hleft, hright⟩ := joined_inj (balanced_text h.1) (balanced_text h'.1) heq
      rw [ihleft h.1 h'.1 hleft, ihright h.2 h'.2 hright]
    | disjunction left' right' =>
      exact absurd heq (conjunction_ne_disjunction (balanced_text h.1) (balanced_text h'.1))
  | disjunction left right ihleft ihright =>
    cases other with
    | leaf text' => exact absurd (congrArg List.head? heq.symm) h'.head?_ne
    | negation operand' => exact absurd (List.cons.inj heq).1 (by decide)
    | conjunction left' right' =>
      exact absurd heq.symm (conjunction_ne_disjunction (balanced_text h'.1) (balanced_text h.1))
    | disjunction left' right' =>
      rw [text, text, SearchQuery.disjunction, SearchQuery.disjunction] at heq
      obtain ⟨hleft, hright⟩ := joined_inj (balanced_text h.1) (balanced_text h'.1) heq
      rw [ihleft h.1 h'.1 hleft, ihright h.2 h'.2 hright]

end ConnectiveTree

end SearchQuery
