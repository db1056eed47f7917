import SearchQuery.Proofs.PredicateTexts

/-!
# Reading escaped values back

A reader of the query syntax takes a backslash for a mark on the character behind it: `unescape` is
the text without the marks.  It refuses a text that ends with a mark on nothing.

Every escaped text is read back as what it was (`unescape_escape`), so no two texts are escaped
alike, and a value that a field is compared with can be read from the query string
(`valueOn?`).
-/

namespace SearchQuery

namespace Text

/-! ## Unescaping -/

/-- The text without the backslashes that cover, if each of them covers a character. -/
def unescape : List Char → Option (List Char)
  | [] => some []
  | ['\\'] => none
  | '\\' :: c :: rest => (unescape rest).map (c :: ·)
  | c :: rest => (unescape rest).map (c :: ·)

theorem unescape_cons_of_ne {c : Char} (hc : c ≠ '\\') (rest : List Char) :
    unescape (c :: rest) = (unescape rest).map (c :: ·) := by
  rw [unescape]
  · rintro rfl
    exact absurd rfl hc
  · rintro _ _ rfl
    exact absurd rfl hc

/-- A text without backslashes is read as it is, whatever stands behind it. -/
theorem unescape_append_of_not_mem {text : List Char} (h : '\\' ∉ text) (rest : List Char) :
    unescape (text ++ rest) = (unescape rest).map (text ++ ·) := by
  induction text with
  | nil => simp
  | cons c text ih =>
    rw [List.mem_cons, not_or] at h
    rw [List.cons_append, unescape_cons_of_ne (Ne.symm h.1), ih h.2, Option.map_map]
    rfl

/-! ## Escaped texts -/

theorem unescape_escapeChar_append (passes : List Operator) (c : Char) (rest : List Char) :
    unescape (escapeChar passes c ++ rest) = (unescape rest).map (c :: ·) := by
  unfold escapeChar
  split
  · rfl
  · rename_i hc
    exact unescape_cons_of_ne (fun hbackslash => hc (.inl hbackslash)) rest

/-- A scan is undone, whatever operators it escapes. -/
theorem unescape_scanEscape {passes : List Operator} (h : .double '\\' ∉ passes)
    (text : List Char) : unescape (scanEscape passes text) = some text := by
  fun_induction scanEscape passes text with
  | case1 => rfl
  | case2 c => simpa [unescape] using unescape_escapeChar_append passes c []
  | case3 c d rest hpair ih =>
    -- Only the first character of a pair is covered, so the second must not be a backslash.
    obtain ⟨rfl, hdouble⟩ := hpair
    have hc : c ≠ '\\' := by
      rintro rfl
      exact h hdouble
    rw [unescape, unescape_cons_of_ne hc, ih]
    rfl
  | case4 c d rest hpair ih =>
    rw [unescape_escapeChar_append, ih]
    rfl

theorem unescape_escape (text : List Char) : unescape (escape text) = some text := by
  rw [escape_eq_scanEscape]
  exact unescape_scanEscape (by decide) text

theorem escape_injective : Function.Injective escape := by
  intro text text' heq
  have hread := congrArg unescape heq
  rw [unescape_escape, unescape_escape] at hread
  exact Option.some.inj hread

end Text

open Text

/-! ## Values in query strings -/

/-- The value that a query string requires of a field. -/
def valueOn? (field text : String) : Option String :=
  if onField field [] <+: text.toList then
    (unescape (text.toList.drop (onField field []).length)).map String.ofList
  else none

theorem onField_eq_append (field : String) (requirement : List Char) :
    onField field requirement = onField field [] ++ requirement := by
  simp [onField]

theorem valueOn?_onField (field : String) (requirement : List Char) :
    valueOn? field (String.ofList (onField field requirement)) =
      (unescape requirement).map String.ofList := by
  rw [valueOn?, String.toList_ofList, onField_eq_append field requirement,
    if_pos (List.prefix_append _ _), List.drop_left]

theorem unescape_onField {field : String} (h : '\\' ∉ field.toList) (requirement : List Char) :
    unescape (onField field requirement) = (unescape requirement).map (onField field) := by
  rw [onField, fieldName, unescape_append_of_not_mem h, unescape_cons_of_ne (by decide),
    Option.map_map]
  rfl

namespace Expr

/-- On a field that is not declared numeric or boolean a text is escaped. -/
theorem translate_equal_text {scope : Scope} {field value : String} {operand : Expr}
    (hvalue : scope.value operand = .ok (.text value))
    (hnumeric : scope.fieldType field ≠ some .numeric)
    (hboolean : scope.fieldType field ≠ some .boolean) :
    (binary .equal (.field field) operand).translate scope =
      .ok (String.ofList (onField field (escape value.toList))) := by
  have horient := Scope.orient_field_left (Scope.ne_field_of_value hvalue) .equal field
  rw [translate, render, Scope.equality, Scope.comparison_of_orient horient hvalue,
    Scope.valueText_plain hnumeric hboolean]
  rfl

/-- Nothing is lost by escaping.  An escaped text is read back as what it was, so no two texts are
escaped alike.  And a text that a field is compared with, as a constant or through a variable, is
read back from the query string behind the name of the field and its colon; if the name has no
backslash, the query string may as well be read as a whole. -/
theorem valueOn?_translate_equal :
    (∀ text, unescape (escape text) = some text) ∧ Function.Injective escape ∧
      ∀ (scope : Scope) (field value : String) (operand : Expr),
        scope.value operand = .ok (.text value) → scope.fieldType field ≠ some .numeric →
        scope.fieldType field ≠ some .boolean →
        ∃ text : String, (binary .equal (.field field) operand).translate scope = .ok text ∧
          valueOn? field text = some value ∧
          ('\\' ∉ field.toList → unescape text.toList = some (onField field value.toList)) := by
  refine ⟨unescape_escape, escape_injective, ?_⟩
  intro scope field value operand hvalue hnumeric hboolean
  refine ⟨_, translate_equal_text hvalue hnumeric hboolean, ?_, fun hfield => ?_⟩
  · rw [valueOn?_onField, unescape_escape, Option.map_some, String.ofList_toList]
  · rw [String.toList_ofList, unescape_onField hfield, unescape_escape]
    rfl

/-- Backslashes in front of operators, and runs of operators of two characters. -/
theorem valueOn?_translate_equal_operators :
    (binary .equal (.field "path") (.literal (.text "\\&&&\\\\||+"))).translate
        ⟨fun _ => none, fun _ => none⟩ = .ok "path:\\\\\\&&&\\\\\\\\\\||\\+" ∧
      valueOn? "path" "path:\\\\\\&&&\\\\\\\\\\||\\+" = some "\\&&&\\\\||+" ∧
      '\\' ∉ "path".toList ∧
      unescape "path:\\\\\\&&&\\\\\\\\\\||\\+".toList = some "path:\\&&&\\\\||+".toList := by
  have hfield : '\\' ∉ "path".toList := by decide
  obtain ⟨text, htext, hvalue, hwhole⟩ := valueOn?_translate_equal.2.2
    ⟨fun _ => none, fun _ => none⟩ "path" "\\&&&\\\\||+" (.literal (.text "\\&&&\\\\||+")) rfl
    nofun nofun
  obtain rfl : text = "path:\\\\\\&&&\\\\\\\\\\||\\+" := Except.ok.inj (htext.symm.trans rfl)
  exact ⟨htext, hvalue, hfield, hwhole hfield⟩

end Expr

end SearchQuery
