/-!
# Open brackets

How deep the brackets of a JSON text nest, told from its characters alone.  Brackets inside strings
do not count, and a quote behind a backslash does not end a string, so the scan of a text keeps
whether it is inside a string and whether a backslash covers the next character (`Spot`).
`bracketNesting` is the largest number of brackets that are open at one place.

A reader takes a piece of the text, and pieces are joined one behind another.  `Passes` says that a
piece leads the scan from one kind of spot to another, and that something holds if brackets nest at
most so deep in it.
-/

namespace SearchQuery.Json

/-! ## Scanning -/

/-- Where the scan of a text is, and how many brackets are open there. -/
inductive Spot where
  | outside (depth : Nat)
  /-- Inside a string. -/
  | quoted (depth : Nat)
  /-- Inside a string, behind a backslash. -/
  | covered (depth : Nat)
deriving DecidableEq, Repr

/-- The characters that mean something to the scan outside of strings. -/
def marks : List Char :=
  ['"', '[', '{', ']', '}']

/-- No mark is among characters of a kind that no mark is of. -/
theorem not_mem_marks {kind : Char → Bool} (hmarks : marks.any kind = false) {text : List Char}
    (h : ∀ c ∈ text, kind c = true) : ∀ c ∈ text, c ∉ marks := by
  intro c hc hmem
  exact List.any_eq_false.mp hmarks c hmem (h c hc)

namespace Spot

/-- The number of open brackets. -/
def depth : Spot → Nat
  | outside depth | quoted depth | covered depth => depth

/-- Behind one more character. -/
def step : Spot → Char → Spot
  | covered depth, _ => quoted depth
  | quoted depth, c =>
      if c = '\\' then covered depth
      else if c = '"' then outside depth
      else quoted depth
  | outside depth, c =>
      if c = '"' then quoted depth
      else if c = '[' ∨ c = '{' then outside (depth + 1)
      else if c = ']' ∨ c = '}' then outside (depth - 1)
      else outside depth

/-- Behind a text. -/
def after (spot : Spot) (text : List Char) : Spot :=
  text.foldl step spot

/-- The largest number of brackets that are open at once in a text. -/
def deepest (spot : Spot) : List Char → Nat
  | [] => spot.depth
  | c :: text => max spot.depth ((spot.step c).deepest text)

/-- Behind a bracket that is open. -/
def inside (depth : Nat) : Spot :=
  outside (depth + 1)

theorem after_append (spot : Spot) (text more : List Char) :
    spot.after (text ++ more) = (spot.after text).after more :=
  List.foldl_append

theorem depth_le_deepest (spot : Spot) (text : List Char) : spot.depth ≤ spot.deepest text := by
  cases text with
  | nil => exact Nat.le_refl _
  | cons c text => exact Nat.le_max_left _ _

/-- The deepest place of a text is in its first part or in its last. -/
theorem deepest_append (spot : Spot) (text more : List Char) :
    spot.deepest (text ++ more) = max (spot.deepest text) ((spot.after text).deepest more) := by
  induction text generalizing spot with
  | nil => exact (Nat.max_eq_right (depth_le_deepest spot more)).symm
  | cons c text ih =>
    rw [List.cons_append, deepest, deepest, ih, Nat.max_assoc]
    rfl

/-- Outside of strings, everything but quotes and brackets is passed over. -/
theorem after_outside {text : List Char} (h : ∀ c ∈ text, c ∉ marks) (depth : Nat) :
    (outside depth).after text = outside depth := by
  induction text with
  | nil => rfl
  | cons c text ih =>
    rw [List.forall_mem_cons] at h
    have hstep : (outside depth).step c = outside depth := by
      have hc := h.1
      simp only [marks, List.mem_cons, List.not_mem_nil, or_false, not_or] at hc
      simp [step, hc]
    rw [after, List.foldl_cons, hstep]
    exact ih h.2

/-- In a string, everything but quotes and backslashes is passed over. -/
theorem after_quoted {text : List Char} (h : ∀ c ∈ text, c ≠ '\\' ∧ c ≠ '"') (depth : Nat) :
    (quoted depth).after text = quoted depth := by
  induction text with
  | nil => rfl
  | cons c text ih =>
    rw [List.forall_mem_cons] at h
    rw [after, List.foldl_cons, step, if_neg h.1.1, if_neg h.1.2]
    exact ih h.2

end Spot

/-- How deep the brackets of a text nest. -/
def bracketNesting (text : List Char) : Nat :=
  (Spot.outside 0).deepest text

/-! ## Passing pieces of a text -/

/-- What stands before `rest` leads from one kind of spot to the other, however many brackets are
open already; and `conclusion` holds if at most `level` more are ever open on the way. -/
def Passes (start finish : Nat → Spot) (level : Nat) (text rest : List Char) (conclusion : Prop) :
    Prop :=
  ∃ taken, text = taken ++ rest ∧ ∀ depth, (start depth).after taken = finish depth ∧
    ((start depth).deepest taken ≤ depth + level → conclusion)

namespace Passes

variable {start middle finish : Nat → Spot} {level : Nat} {text between rest : List Char}
  {p q : Prop}

theorem of_after (taken : List Char) (h : ∀ depth, (start depth).after taken = finish depth)
    (hp : p) : Passes start finish level (taken ++ rest) rest p :=
  ⟨taken, rfl, fun depth => ⟨h depth, fun _ => hp⟩⟩

/-- A piece without quotes and brackets. -/
theorem outside {taken : List Char} (h : ∀ c ∈ taken, c ∉ marks) (hp : p) :
    Passes .outside .outside level (taken ++ rest) rest p :=
  of_after taken (Spot.after_outside h) hp

theorem refl (hp : p) : Passes start start level rest rest p :=
  of_after [] (fun _ => rfl) hp

theorem imp (h : Passes start finish level text rest p) (hpq : p → q) :
    Passes start finish level text rest q := by
  obtain ⟨taken, htext, h⟩ := h
  exact ⟨taken, htext, fun depth => ⟨(h depth).1, fun hdeep => hpq ((h depth).2 hdeep)⟩⟩

/-- One piece behind another. -/
theorem trans (hp : Passes start middle level text between p)
    (hq : Passes middle finish level between rest q) :
    Passes start finish level text rest (p ∧ q) := by
  obtain ⟨taken, rfl, hp⟩ := hp
  obtain ⟨taken', rfl, hq⟩ := hq
  refine ⟨taken ++ taken', (List.append_assoc ..).symm, fun depth => ⟨?_, fun hdeep => ?_⟩⟩
  · rw [Spot.after_append, (hp depth).1, (hq depth).1]
  · rw [Spot.deepest_append, (hp depth).1, Nat.max_le] at hdeep
    exact ⟨(hp depth).2 hdeep.1, (hq depth).2 hdeep.2⟩

/-- One more character in front that is no mark. -/
theorem cons {c : Char} (hc : c ∉ marks) (h : Passes .outside .outside level text rest p) :
    Passes .outside .outside level (c :: text) rest p :=
  ((of_after [c] (Spot.after_outside (List.forall_mem_singleton.mpr hc)) trivial).trans h).imp
    And.right

/-- Inside a bracket, one more bracket may be open. -/
theorem inside (h : Passes start finish level text rest p) :
    Passes (fun depth => start (depth + 1)) (fun depth => finish (depth + 1)) (level + 1) text rest
      p := by
  obtain ⟨taken, htext, h⟩ := h
  refine ⟨taken, htext, fun depth => ⟨(h (depth + 1)).1, fun hdeep => (h (depth + 1)).2 ?_⟩⟩
  rwa [Nat.add_assoc, Nat.add_comm 1 level]

/-- Where fewer brackets may be open, less has to hold. -/
theorem mono (h : Passes start finish level text rest p) {level' : Nat} (hlevel : level' ≤ level) :
    Passes start finish level' text rest p := by
  obtain ⟨taken, htext, h⟩ := h
  refine ⟨taken, htext, fun depth => ⟨(h depth).1, fun hdeep => (h depth).2 ?_⟩⟩
  exact Nat.le_trans hdeep (Nat.add_le_add_left hlevel depth)

/-- Opening a bracket. -/
theorem opening {c : Char} (hc : c = '[' ∨ c = '{') (hp : p) :
    Passes .outside Spot.inside level (c :: rest) rest p := by
  refine of_after [c] (fun depth => ?_) hp
  rcases hc with rfl | rfl <;> rfl

/-- Closing a bracket. -/
theorem closing {c : Char} (hc : c = ']' ∨ c = '}') (hp : p) :
    Passes Spot.inside .outside level (c :: rest) rest p := by
  refine of_after [c] (fun depth => ?_) hp
  rcases hc with rfl | rfl <;> rfl

/-- No bracket is opened where none more may be open. -/
theorem opening_zero {c : Char} (hc : c = '[' ∨ c = '{') :
    Passes .outside Spot.inside 0 (c :: rest) rest False := by
  refine ⟨[c], rfl, fun depth => ⟨?_, fun hdeep => ?_⟩⟩
  · rcases hc with rfl | rfl <;> rfl
  · have hle : depth + 1 ≤ (Spot.outside depth).deepest [c] := by
      rcases hc with rfl | rfl <;> exact Nat.le_max_right depth (depth + 1)
    omega

end Passes

end SearchQuery.Json
