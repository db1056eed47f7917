import Mathlib.Data.List.Forall2

/-!
# Outcomes

Readers and translators answer with `Except`.  A result of two steps, one after another, comes
from a result of each; the lemmas here take such a result apart without unfolding the monad.
-/

namespace SearchQuery

variable {ε α β : Type}

theorem ok_bind (a : α) (next : α → Except ε β) : (Except.ok a >>= next) = next a :=
  rfl

/-- A step and the step after it succeed together. -/
theorem bind_eq_ok {x : Except ε α} {next : α → Except ε β} {b : β} :
    x >>= next = .ok b ↔ ∃ a, x = .ok a ∧ next a = .ok b := by
  cases x with
  | ok a => exact ⟨fun h => ⟨a, rfl, h⟩, by rintro ⟨_, ⟨⟩, h⟩; exact h⟩
  | error e => exact ⟨nofun, by rintro ⟨_, ⟨⟩, _⟩⟩

theorem map_eq_ok {x : Except ε α} {f : α → β} {b : β} :
    x.map f = .ok b ↔ ∃ a, x = .ok a ∧ f a = b := by
  cases x <;> simp [Except.map]

/-- Of two steps, the first fails, or it succeeds and the second fails on its result. -/
theorem bind_eq_error {x : Except ε α} {next : α → Except ε β} {e : ε} :
    x >>= next = .error e ↔ x = .error e ∨ ∃ a, x = .ok a ∧ next a = .error e := by
  cases x <;> simp [bind, Except.bind]

theorem map_eq_error {x : Except ε α} {f : α → β} {e : ε} :
    x.map f = .error e ↔ x = .error e := by
  cases x <;> simp [Except.map]

/-- What is made of a result is made of what the last step gives. -/
theorem map_bind_eq {γ : Type} (x : Except ε α) (next : α → Except ε β) (f : β → γ) :
    (x >>= next).map f = x >>= fun a => (next a).map f := by
  cases x <;> rfl

theorem exists_map_eq_ok {x : Except ε α} {f : α → β} :
    (∃ b, x.map f = .ok b) ↔ ∃ a, x = .ok a := by
  cases x <;> simp [Except.map]

theorem exists_eq_ok_iff {x : Except ε α} : (∃ a, x = .ok a) ↔ ∀ e, x ≠ .error e := by
  cases x <;> simp

/-- Of two steps whose results are put together, the second is only taken if the first succeeds. -/
theorem both_eq_error {γ : Type} {x : Except ε α} {y : Except ε β} {f : α → β → γ} {e : ε} :
    (do return f (← x) (← y)) = Except.error e ↔
      x = .error e ∨ (∃ a, x = .ok a) ∧ y = .error e := by
  cases x with
  | ok a => cases y <;> simp [bind, Except.bind, pure, Except.pure]
  | error e' => simp [bind, Except.bind]

/-- What is done with each item of a list in turn fails at the first item with which it fails. -/
theorem mapM_eq_error {f : α → Except ε β} {items : List α} {e : ε} :
    items.mapM f = .error e ↔ ∃ before a after, items = before ++ a :: after ∧
      (∀ b ∈ before, ∃ c, f b = .ok c) ∧ f a = .error e := by
  induction items with
  | nil => simp [pure, Except.pure]
  | cons first items ih =>
    rw [List.mapM_cons, both_eq_error, ih]
    constructor
    · rintro (hfirst | ⟨hfirst, before, a, after, rfl, hbefore, ha⟩)
      · exact ⟨[], first, items, rfl, by simp, hfirst⟩
      · exact ⟨first :: before, a, after, rfl, List.forall_mem_cons.mpr ⟨hfirst, hbefore⟩, ha⟩
    · rintro ⟨before, a, after, hitems, hbefore, ha⟩
      cases before with
      | nil =>
        obtain ⟨rfl, rfl⟩ := List.cons.inj hitems
        exact .inl ha
      | cons b before =>
        obtain ⟨rfl, rfl⟩ := List.cons.inj hitems
        rw [List.forall_mem_cons] at hbefore
        exact .inr ⟨hbefore.1, before, a, after, rfl, hbefore.2, ha⟩

theorem mapM_singleton_eq_error {f : α → Except ε β} {a : α} {e : ε} :
    [a].mapM f = .error e ↔ f a = .error e := by
  cases h : f a <;> simp [h, bind, Except.bind, pure, Except.pure]

/-- What is done with each item of a list in turn has one result for each item, in their order. -/
theorem mapM_eq_ok {f : α → Except ε β} {items : List α} {results : List β} :
    items.mapM f = .ok results ↔ List.Forall₂ (fun a b => f a = .ok b) items results := by
  induction items generalizing results with
  | nil => simp [pure, Except.pure, eq_comm]
  | cons first items ih =>
    rw [List.mapM_cons, bind_eq_ok, List.forall₂_cons_left_iff]
    simp only [bind_eq_ok, ih]
    constructor
    · rintro ⟨b, hfirst, rest, hrest, ⟨⟩⟩
      exact ⟨b, rest, hfirst, hrest, rfl⟩
    · rintro ⟨b, rest, hfirst, hrest, rfl⟩
      exact ⟨b, hfirst, rest, hrest, rfl⟩

theorem exists_mapM_eq_ok {f : α → Except ε β} {items : List α} :
    (∃ results, items.mapM f = .ok results) ↔ ∀ a ∈ items, ∃ b, f a = .ok b := by
  induction items with
  | nil => simp [pure, Except.pure]
  | cons first items ih =>
    rw [List.forall_mem_cons, ← ih, List.mapM_cons]
    cases f first with
    | error e => simp [bind, Except.bind]
    | ok b => cases items.mapM f <;> simp [bind, Except.bind, pure, Except.pure]

/-- Items that are taken apart, each into parts that fail together as it does, fail as their parts
do, taken one after another. -/
theorem mapM_flatMap_eq_error {γ δ : Type} {f : α → Except ε β} {g : γ → Except ε δ}
    {parts : γ → List α}
    (h : ∀ item e, (parts item).mapM f = .error e ↔ g item = .error e)
    {items : List γ} {e : ε} :
    (items.flatMap parts).mapM f = .error e ↔ items.mapM g = .error e := by
  induction items with
  | nil => simp [pure, Except.pure]
  | cons item items ih =>
    have hitem : (∃ results, (parts item).mapM f = .ok results) ↔ ∃ b, g item = .ok b := by
      simp only [exists_eq_ok_iff, ne_eq, h]
    rw [List.flatMap_cons, List.mapM_append, both_eq_error, List.mapM_cons, both_eq_error, h, ih,
      hitem]

/-- A list is read back item by item. -/
theorem mapM_map_eq_ok {write : α → β} {read : β → Except ε α} {items : List α}
    (h : ∀ a ∈ items, read (write a) = .ok a) : (items.map write).mapM read = .ok items := by
  induction items with
  | nil => rfl
  | cons a items ih =>
    rw [List.forall_mem_cons] at h
    rw [List.map_cons, List.mapM_cons, h.1, ok_bind, ih h.2, ok_bind]
    rfl

end SearchQuery
