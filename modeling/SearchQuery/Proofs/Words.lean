import SearchQuery.Proofs.Escaping
import SearchQuery.Query.Emission

/-!
# Words

A reader of query strings splits a text at the spaces that stand outside of brackets and quotes.
`Place` is where such a reader stands, `words` is the split, and two predicates say which texts
it keeps together.

* `Closed`: the text opens and closes its own brackets and quotes, so that a reader stands behind
  it as it stood before it, and inside of brackets no space of it is outside.
* `Solid`: moreover no space of it is outside of its own brackets and quotes.

Texts without delimiters, escaped texts, quoted texts and closed texts in brackets are closed, and
so is what they are joined to.  `words_spaceSeparated` and `words_alternatives` say how a
reader takes joined texts apart again.
-/

namespace SearchQuery.Text

/-! ## Places -/

/-- Where a reader stands in a text. -/
structure Place where
  /-- The number of open brackets, of whatever kind. -/
  depth : Nat
  /-- Whether a quote is open. -/
  quoted : Bool := false
  /-- Whether the character before is a backslash that covers the next one. -/
  covered : Bool := false
deriving DecidableEq, Repr

/-- Whether a character opens a bracket. -/
def isOpening (c : Char) : Bool :=
  c = '(' || c = '[' || c = '{'

/-- Whether a character closes a bracket. -/
def isClosing (c : Char) : Bool :=
  c = ')' || c = ']' || c = '}'

/-- Whether a character means nothing to the structure of a text. -/
def isInert (c : Char) : Bool :=
  c ≠ '\\' && c ≠ '"' && !isOpening c && !isClosing c

namespace Place

/-- Between the brackets of a level, uncovered and outside of quotes. -/
def level (depth : Nat) : Place :=
  { depth }

/-- The place behind a character.  Inside of quotes brackets mean nothing. -/
def step (place : Place) (c : Char) : Place :=
  if place.covered then { place with covered := false }
  else if c = '\\' then { place with covered := true }
  else if c = '"' then { place with quoted := !place.quoted }
  else if place.quoted then place
  else if isOpening c then { place with depth := place.depth + 1 }
  else if isClosing c then { place with depth := place.depth - 1 }
  else place

/-- The place behind a text. -/
def after (place : Place) (text : List Char) : Place :=
  text.foldl step place

@[simp] theorem after_nil (place : Place) : place.after [] = place := rfl

@[simp] theorem after_cons (place : Place) (c : Char) (rest : List Char) :
    place.after (c :: rest) = (place.step c).after rest := rfl

theorem after_append (place : Place) (text rest : List Char) :
    place.after (text ++ rest) = (place.after text).after rest :=
  List.foldl_append

@[simp] theorem step_level_backslash (depth : Nat) :
    (level depth).step '\\' = { depth, covered := true } := rfl

@[simp] theorem step_covered (depth : Nat) (c : Char) :
    Place.step { depth, covered := true } c = level depth := rfl

theorem step_level_of_isInert {c : Char} (hc : isInert c = true) (depth : Nat) :
    (level depth).step c = level depth := by
  simp only [isInert, Bool.and_eq_true, decide_eq_true_eq, Bool.not_eq_true'] at hc
  simp [step, level, hc]

theorem step_level_of_isOpening {c : Char} (hc : isOpening c = true) (depth : Nat) :
    (level depth).step c = level (depth + 1) := by
  simp only [isOpening, Bool.or_eq_true, decide_eq_true_eq] at hc
  rcases hc with (rfl | rfl) | rfl <;> rfl

theorem step_level_of_isClosing {c : Char} (hc : isClosing c = true) (depth : Nat) :
    (level (depth + 1)).step c = level depth := by
  simp only [isClosing, Bool.or_eq_true, decide_eq_true_eq] at hc
  rcases hc with (rfl | rfl) | rfl <;> rfl

end Place

open Place

/-! ## Splitting -/

/-- The texts between the spaces that are met at level zero. -/
def splitWords (place : Place) : List Char → List (List Char)
  | [] => [[]]
  | c :: rest =>
      if c = ' ' ∧ place = level 0 then [] :: splitWords place rest
      else (splitWords (place.step c) rest).modifyHead (c :: ·)

/-- The words of a text: what stands between the spaces outside of brackets and quotes. -/
def words (text : List Char) : List (List Char) :=
  splitWords (level 0) text

/-- No space of the text is met at level zero. -/
def Unbroken : Place → List Char → Prop
  | _, [] => True
  | place, c :: rest => ¬(c = ' ' ∧ place = level 0) ∧ Unbroken (place.step c) rest

theorem splitWords_space (rest : List Char) :
    splitWords (level 0) (' ' :: rest) = [] :: words rest := by
  rw [splitWords, if_pos ⟨rfl, rfl⟩, words]

theorem splitWords_cons {place : Place} {c : Char} (h : ¬(c = ' ' ∧ place = level 0))
    (rest : List Char) :
    splitWords place (c :: rest) = (splitWords (place.step c) rest).modifyHead (c :: ·) := by
  rw [splitWords, if_neg h]

theorem splitWords_ne_nil (place : Place) (text : List Char) : splitWords place text ≠ [] := by
  induction text generalizing place with
  | nil => exact List.cons_ne_nil _ _
  | cons c rest ih =>
    rw [splitWords]
    split
    · exact List.cons_ne_nil _ _
    · intro h
      exact ih (place.step c) (List.modifyHead_eq_nil_iff.mp h)

theorem unbroken_append {place : Place} {text rest : List Char} :
    Unbroken place (text ++ rest) ↔ Unbroken place text ∧ Unbroken (place.after text) rest := by
  induction text generalizing place with
  | nil => simp [Unbroken]
  | cons c text ih => simp only [List.cons_append, Unbroken, ih, after_cons, and_assoc]

theorem splitWords_of_unbroken {place : Place} {text : List Char} (h : Unbroken place text) :
    splitWords place text = [text] := by
  induction text generalizing place with
  | nil => rfl
  | cons c text ih =>
    rw [splitWords_cons h.1, ih h.2]
    rfl

/-- A space that is met at level zero parts the words before it from those behind it. -/
theorem splitWords_append_space {place : Place} {text : List Char}
    (h : place.after text = level 0) (rest : List Char) :
    splitWords place (text ++ ' ' :: rest) = splitWords place text ++ words rest := by
  induction text generalizing place with
  | nil =>
    rw [after_nil] at h
    subst h
    exact splitWords_space rest
  | cons c text ih =>
    rw [after_cons] at h
    rw [List.cons_append]
    by_cases hspace : c = ' ' ∧ place = level 0
    · obtain ⟨rfl, rfl⟩ := hspace
      rw [splitWords_space, splitWords_space, words, @ih (level 0) h]
      rfl
    · rw [splitWords_cons hspace, splitWords_cons hspace, ih h]
      obtain ⟨word, more, hwords⟩ :=
        List.exists_cons_of_ne_nil (splitWords_ne_nil (place.step c) text)
      rw [hwords]
      rfl

/-! ## Texts that keep together -/

/-- The text opens and closes its own brackets and quotes. -/
structure Closed (text : List Char) : Prop where
  after : ∀ depth, (level depth).after text = level depth
  unbroken : ∀ depth, Unbroken (level (depth + 1)) text

/-- The text is closed and has no space outside of its brackets and quotes. -/
structure Solid (text : List Char) : Prop extends Closed text where
  unbroken_zero : Unbroken (level 0) text

theorem level_succ_ne_zero (depth : Nat) : level (depth + 1) ≠ level 0 := by
  simp [level]

theorem closed_nil : Closed [] where
  after _ := rfl
  unbroken _ := trivial

theorem Closed.append {text rest : List Char} (h : Closed text) (hrest : Closed rest) :
    Closed (text ++ rest) where
  after depth := by rw [after_append, h.after, hrest.after]
  unbroken depth := unbroken_append.mpr ⟨h.unbroken depth, by
    rw [h.after]
    exact hrest.unbroken depth⟩

theorem Solid.append {text rest : List Char} (h : Solid text) (hrest : Solid rest) :
    Solid (text ++ rest) where
  toClosed := h.toClosed.append hrest.toClosed
  unbroken_zero := unbroken_append.mpr ⟨h.unbroken_zero, by
    rw [h.after]
    exact hrest.unbroken_zero⟩

theorem closed_intercalate {between : List Char} {texts : List (List Char)}
    (hbetween : Closed between) (h : ∀ text ∈ texts, Closed text) :
    Closed (between.intercalate texts) := by
  induction texts with
  | nil => exact closed_nil
  | cons text rest ih =>
    have htext : Closed text := h text List.mem_cons_self
    have hrest : Closed (between.intercalate rest) :=
      ih fun t ht => h t (List.mem_cons_of_mem _ ht)
    cases rest with
    | nil => simpa using htext
    | cons next rest =>
      rw [List.intercalate_cons_cons]
      exact (htext.append hbetween).append hrest

theorem closed_of_isInert {text : List Char} (h : text.all isInert = true) : Closed text := by
  induction text with
  | nil => exact closed_nil
  | cons c text ih =>
    rw [List.all_cons, Bool.and_eq_true] at h
    have hstep := step_level_of_isInert h.1
    have hrest : Closed text := ih h.2
    constructor
    · intro depth
      rw [after_cons, hstep, hrest.after]
    · intro depth
      refine ⟨fun hspace => level_succ_ne_zero depth hspace.2, ?_⟩
      rw [hstep]
      exact hrest.unbroken depth

theorem solid_of_isInert {text : List Char} (h : text.all isInert = true)
    (hspace : ' ' ∉ text) : Solid text where
  toClosed := closed_of_isInert h
  unbroken_zero := by
    induction text with
    | nil => trivial
    | cons c text ih =>
      rw [List.all_cons, Bool.and_eq_true] at h
      refine ⟨fun hc => hspace (hc.1 ▸ List.mem_cons_self), ?_⟩
      rw [step_level_of_isInert h.1]
      exact ih h.2 fun hmem => hspace (List.mem_cons_of_mem _ hmem)

/-- A closed text in brackets is solid, whatever spaces it has. -/
theorem Closed.bracketed {text : List Char} (h : Closed text) {opening closing : Char}
    (hopening : isOpening opening = true) (hclosing : isClosing closing = true) :
    Solid (opening :: (text ++ [closing])) := by
  have hunbroken : ∀ depth, Unbroken (level depth) (opening :: (text ++ [closing])) := by
    intro depth
    constructor
    · rintro ⟨rfl, _⟩
      exact nomatch hopening
    · rw [step_level_of_isOpening hopening]
      refine unbroken_append.mpr ⟨h.unbroken depth, ?_⟩
      rw [h.after]
      exact ⟨fun hspace => level_succ_ne_zero depth hspace.2, trivial⟩
  refine ⟨⟨fun depth => ?_, fun depth => hunbroken (depth + 1)⟩, hunbroken 0⟩
  rw [after_cons, step_level_of_isOpening hopening, after_append, h.after, after_cons,
    step_level_of_isClosing hclosing, after_nil]

theorem Closed.parenthesized {text : List Char} (h : Closed text) :
    Solid (parenthesized text) :=
  h.bracketed rfl rfl

/-- Inside of quotes everything but quotes and backslashes is plain text. -/
theorem quoted_of_not_mem {text : List Char} (hquote : '"' ∉ text) (hbackslash : '\\' ∉ text)
    (depth : Nat) :
    Place.after { depth, quoted := true } text = { depth, quoted := true } ∧
      Unbroken { depth, quoted := true } text := by
  induction text with
  | nil => exact ⟨rfl, trivial⟩
  | cons c text ih =>
    simp only [List.mem_cons, not_or] at hquote hbackslash
    have hstep : Place.step { depth, quoted := true } c = { depth, quoted := true } := by
      simp [step, Ne.symm hquote.1, Ne.symm hbackslash.1]
    obtain ⟨hafter, hunbroken⟩ := ih hquote.2 hbackslash.2
    refine ⟨?_, fun hspace => ?_, ?_⟩
    · rw [after_cons, hstep, hafter]
    · exact nomatch congrArg Place.quoted hspace.2
    · rw [hstep]
      exact hunbroken

theorem solid_doubleQuoted {text : List Char} (hquote : '"' ∉ text) (hbackslash : '\\' ∉ text) :
    Solid (doubleQuoted text) := by
  have hinside := quoted_of_not_mem hquote hbackslash
  have hopen : ∀ depth, (level depth).step '"' = { depth, quoted := true } := fun _ => rfl
  have hclose : ∀ depth, Place.step { depth, quoted := true } '"' = level depth := fun _ => rfl
  have hunbroken : ∀ depth, Unbroken (level depth) (doubleQuoted text) := by
    intro depth
    refine ⟨fun hspace => absurd hspace.1 (by decide), ?_⟩
    rw [hopen]
    refine unbroken_append.mpr ⟨(hinside depth).2, fun hspace => ?_, trivial⟩
    exact absurd hspace.1 (by decide)
  refine ⟨⟨fun depth => ?_, fun depth => hunbroken (depth + 1)⟩, hunbroken 0⟩
  rw [doubleQuoted, after_cons, hopen, after_append, (hinside depth).1, after_cons, hclose,
    after_nil]

/-! ## Escaped texts -/

theorem isInert_of_not_single_mem {c : Char} (hbackslash : c ≠ '\\')
    (hplain : .single c ∉ operators) : isInert c = true := by
  simp only [operators, List.mem_cons, Operator.single.injEq, not_or] at hplain
  simp [isInert, isOpening, isClosing, hbackslash, hplain]

/-- A reader comes out of an escaped text as it went in. -/
theorem Escaped.closed {text : List Char} (h : Escaped text) : Closed text := by
  induction h with
  | nil => exact closed_nil
  | @covered c rest _ _ ih =>
    refine ⟨fun depth => ?_, fun depth => ?_⟩
    · simpa using ih.after depth
    · refine ⟨fun hspace => absurd hspace.1 (by decide), ?_, ?_⟩
      · exact fun hspace => nomatch congrArg Place.covered hspace.2
      · simpa using ih.unbroken depth
  | @plain c rest hbackslash hplain _ ih =>
    have hc : Closed [c] := closed_of_isInert <| by
      rw [List.all_cons, isInert_of_not_single_mem hbackslash hplain]
      rfl
    exact hc.append ih

theorem Escaped.solid {text : List Char} (h : Escaped text) (hspace : ' ' ∉ text) :
    Solid text := by
  refine ⟨h.closed, ?_⟩
  induction h with
  | nil => trivial
  | covered _ _ ih =>
    simp only [List.mem_cons, not_or] at hspace
    refine ⟨fun hc => absurd hc.1 (by decide), fun hc => hspace.2.1 hc.1.symm, ?_⟩
    simpa using ih hspace.2.2
  | plain hbackslash hplain _ ih =>
    simp only [List.mem_cons, not_or] at hspace
    refine ⟨fun hc => hspace.1 hc.1.symm, ?_⟩
    rw [step_level_of_isInert (isInert_of_not_single_mem hbackslash hplain)]
    exact ih hspace.2

theorem solid_trimEnd_of_isInert {text : List Char} (h : text.all isInert = true)
    (hspace : ' ' ∉ text) : Solid (trimEnd text) := by
  refine solid_of_isInert (List.all_eq_true.mpr fun c hc => ?_) fun hmem => ?_
  · exact List.all_eq_true.mp h c (mem_of_mem_trimEnd hc)
  · exact hspace (mem_of_mem_trimEnd hmem)

theorem Escaped.solid_trimEnd {text : List Char} (h : Escaped text) (hspace : ' ' ∉ text) :
    Solid (Text.trimEnd text) :=
  h.trimEnd.solid fun hmem => hspace (mem_of_mem_trimEnd hmem)

/-! ## Joined texts -/

theorem Solid.words_eq {text : List Char} (h : Solid text) : words text = [text] :=
  splitWords_of_unbroken h.unbroken_zero

theorem Closed.words_append_space {text : List Char} (h : Closed text) (rest : List Char) :
    words (text ++ ' ' :: rest) = words text ++ words rest :=
  splitWords_append_space (h.after 0) rest

/-- Solid texts with spaces between them are the words of the whole. -/
theorem words_spaceSeparated {texts : List (List Char)} (h : ∀ text ∈ texts, Solid text)
    (hne : texts ≠ []) : words (spaceSeparated texts) = texts := by
  induction texts with
  | nil => exact absurd rfl hne
  | cons text rest ih =>
    have htext : Solid text := h text List.mem_cons_self
    cases rest with
    | nil => simpa [spaceSeparated] using htext.words_eq
    | cons next rest =>
      have hrest := ih (fun t ht => h t (List.mem_cons_of_mem _ ht)) (by simp)
      rw [spaceSeparated, List.intercalate_cons_cons, List.append_assoc, List.singleton_append,
        htext.words_append_space, htext.words_eq]
      rw [spaceSeparated] at hrest
      rw [hrest]
      rfl

/-- The word between alternatives. -/
def orWord : List Char :=
  "OR".toList

/-- The words of alternatives are their words, with the word between them. -/
theorem words_alternatives {texts : List (List Char)} (h : ∀ text ∈ texts, Closed text)
    (hne : texts ≠ []) :
    words (alternatives texts) = [orWord].intercalate (texts.map words) := by
  induction texts with
  | nil => exact absurd rfl hne
  | cons text rest ih =>
    have htext : Closed text := h text List.mem_cons_self
    cases rest with
    | nil => simp [alternatives]
    | cons next rest =>
      have hrest := ih (fun t ht => h t (List.mem_cons_of_mem _ ht)) (by simp)
      have hor : Solid orWord := solid_of_isInert (by decide) (by decide)
      have hjoined : alternatives (text :: next :: rest) =
          text ++ ' ' :: (orWord ++ ' ' :: alternatives (next :: rest)) := by
        simp [alternatives, orWord]
      rw [hjoined, htext.words_append_space, hor.words_append_space, hor.words_eq, hrest]
      simp

/-- Alternatives are read back one by one, unless one of them has the word between them. -/
theorem splitOn_words_alternatives {texts : List (List Char)} (h : ∀ text ∈ texts, Closed text)
    (hne : texts ≠ []) (hor : ∀ text ∈ texts, orWord ∉ words text) :
    (words (alternatives texts)).splitOn orWord = texts.map words := by
  rw [words_alternatives h hne]
  refine List.splitOn_intercalate orWord ?_ (by simpa using hne)
  intro split hsplit
  obtain ⟨text, htext, rfl⟩ := List.mem_map.mp hsplit
  exact hor text htext

end SearchQuery.Text
