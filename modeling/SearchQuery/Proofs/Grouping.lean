import SearchQuery.Proofs.PredicateTexts
import SearchQuery.Proofs.Skeleton

/-!
# Values and the grouping of a predicate

The grouping of a query string are its structural characters but for the signs, as far as they are
not covered by a backslash.  A sign can be part of a number, and numbers are not escaped; apart
from that no value of a predicate has a part in the structure of the query string.

The proof compares two texts by the skeletons that they have with a letter in place of every sign
(`unsigned`).  A value is an escaped text then, whichever way it was written
(`escaped_unsigned_valueText`), and it stands between two texts that do not depend on it
(`IsFrame`).  `interchangeable_unsigned_render` is the induction over two predicates.
-/

namespace SearchQuery

open Text

/-- The structural characters that cannot be part of a number. -/
def groupingChars : List Char :=
  ['(', ')', '{', '}', '[', ']', ':', '*', '?', '"', '~', '^', '/', '!']

/-- The grouping characters of a query string that are not covered, in order. -/
def grouping (text : String) : List Char :=
  (uncovered false text.toList).filter (· ∈ groupingChars)

/-! ## Texts without signs -/

/-- A letter in place of a sign; every other character is left as it is. -/
def unsignedChar (c : Char) : Char :=
  if c = '+' ∨ c = '-' then 's' else c

/-- The text with a letter in place of every sign. -/
def unsigned (text : List Char) : List Char :=
  text.map unsignedChar

@[simp] theorem unsigned_append (text rest : List Char) :
    unsigned (text ++ rest) = unsigned text ++ unsigned rest := by
  simp [unsigned]

theorem unsignedChar_eq_backslash_iff {c : Char} : unsignedChar c = '\\' ↔ c = '\\' := by
  unfold unsignedChar
  split
  · rename_i hsign
    constructor
    · intro h
      exact absurd h (by decide)
    · rintro rfl
      exact absurd hsign (by decide)
  · rfl

/-- Without its signs, a character is structural if it groups. -/
theorem unsignedChar_mem_structuralChars_iff {c : Char} :
    unsignedChar c ∈ structuralChars ↔ c ∈ groupingChars := by
  unfold unsignedChar
  split
  · rename_i hsign
    rcases hsign with rfl | rfl <;> decide
  · rename_i hsign
    have hgrouping : structuralChars.all (fun d => d = '+' || d = '-' || groupingChars.contains d) =
        true := by decide
    have hstructural : groupingChars.all structuralChars.contains = true := by decide
    constructor
    · intro hc
      have hgroup := List.all_eq_true.mp hgrouping c hc
      simp only [Bool.or_eq_true, decide_eq_true_eq, List.contains_iff_mem] at hgroup
      exact hgroup.resolve_left hsign
    · intro hc
      exact List.contains_iff_mem.mp (List.all_eq_true.mp hstructural c hc)

theorem unsignedChar_of_mem_groupingChars {c : Char} (h : c ∈ groupingChars) :
    unsignedChar c = c := by
  rw [unsignedChar, if_neg]
  rintro (rfl | rfl) <;> exact absurd h (by decide)

theorem uncovered_unsigned (covered : Bool) (text : List Char) :
    uncovered covered (unsigned text) = unsigned (uncovered covered text) := by
  induction text generalizing covered with
  | nil => rfl
  | cons c text ih =>
    rw [unsigned, List.map_cons, ← unsigned]
    cases covered with
    | true => exact ih false
    | false =>
      by_cases hc : c = '\\'
      · subst hc
        exact ih true
      · have hunsigned : unsignedChar c ≠ '\\' := fun h => hc (unsignedChar_eq_backslash_iff.mp h)
        rw [uncovered_cons_of_ne hunsigned, uncovered_cons_of_ne hc, ih]
        rfl

/-- The structural characters that are left when the signs are gone are the grouping ones. -/
theorem skeletonFrom_unsigned (covered : Bool) (text : List Char) :
    skeletonFrom covered (unsigned text) =
      (uncovered covered text).filter (· ∈ groupingChars) := by
  have hkept : ∀ c ∈ (uncovered covered text).filter (· ∈ groupingChars), unsignedChar c = c := by
    intro c hc
    exact unsignedChar_of_mem_groupingChars (of_decide_eq_true (List.mem_filter.mp hc).2)
  rw [skeletonFrom, uncovered_unsigned, unsigned, List.filter_map]
  simp only [Function.comp_def, unsignedChar_mem_structuralChars_iff]
  rw [List.map_congr_left hkept, List.map_id']

theorem covers_unsigned (covered : Bool) (text : List Char) :
    covers covered (unsigned text) = covers covered text := by
  induction text generalizing covered with
  | nil => rfl
  | cons c text ih =>
    have hc : (unsignedChar c = '\\') = (c = '\\') := propext unsignedChar_eq_backslash_iff
    rw [unsigned, List.map_cons, covers, covers, ← unsigned, ih]
    simp only [hc]

/-! ## Values -/

theorem escaped_unsigned {text : List Char} (h : Escaped text) : Escaped (unsigned text) := by
  induction h with
  | nil => exact .nil
  | @covered c rest hblank _ ih =>
    refine .covered ?_ ih
    unfold unsignedChar
    split
    · decide
    · exact hblank
  | @plain c rest hbackslash hplain _ ih =>
    refine .plain (fun h => hbackslash (unsignedChar_eq_backslash_iff.mp h)) ?_ ih
    unfold unsignedChar
    split
    · decide
    · exact hplain

theorem number_or_sign_of_mem_operators : ∀ operator ∈ operators,
    Number.isNumberChar operator.char = false ∨ operator.char = '+' ∨ operator.char = '-' := by
  decide

/-- Of the characters of a number only the signs are operators. -/
theorem isOrdinary_unsignedChar {c : Char} (hc : Number.isNumberChar c = true) :
    isOrdinary (unsignedChar c) = true := by
  unfold unsignedChar
  split
  · decide
  · rename_i hsign
    have hbackslash : c ≠ '\\' := by
      rintro rfl
      exact absurd hc (by decide)
    have hsingle : .single c ∉ operators := by
      intro hmem
      rcases number_or_sign_of_mem_operators _ hmem with hnumber | hchar
      · exact absurd hc (by simpa [Operator.char] using hnumber)
      · exact hsign hchar
    simp [isOrdinary, hbackslash, hsingle]

theorem escaped_unsigned_of_isNumberText {text : List Char} (h : Number.IsNumberText text) :
    Escaped (unsigned text) := by
  refine escaped_of_isOrdinary (List.all_eq_true.mpr fun d hd => ?_)
  obtain ⟨c, hc, rfl⟩ := List.mem_map.mp hd
  exact isOrdinary_unsignedChar (h c hc)

theorem escaped_unsigned_valueText {scope : Scope} {field : String} {value : Literal}
    {text : List Char} (h : scope.valueText field value = .ok text) : Escaped (unsigned text) := by
  rcases Scope.isNumberText_or_escaped_valueText h with hnumber | hescaped
  · exact escaped_unsigned_of_isNumberText hnumber
  · exact escaped_unsigned hescaped

/-- What is written about a value: one text before it and one behind it, neither of which depends
on the value, and the first of which does not cover it. -/
def IsFrame (frame : List Char → List Char) : Prop :=
  ∃ before after, covers false before = false ∧ ∀ text, frame text = before ++ text ++ after

theorem isFrame_orderingInterval (op : BinaryOp) : IsFrame (Scope.orderingInterval op) := by
  unfold Scope.orderingInterval
  split
  · exact ⟨['{'], " TO *]".toList, rfl, fun text => by simp [interval]⟩
  · exact ⟨['['], " TO *]".toList, rfl, fun text => by simp [interval]⟩
  · exact ⟨"[* TO ".toList, ['}'], rfl, fun text => by simp [interval]⟩
  · exact ⟨"[* TO ".toList, [']'], rfl, fun text => by simp [interval]⟩

theorem interchangeable_unsigned_onField (field : String) {frame : List Char → List Char}
    (hframe : IsFrame frame) {text text' : List Char} (h : Escaped (unsigned text))
    (h' : Escaped (unsigned text')) :
    Interchangeable (unsigned (onField field (frame text)))
      (unsigned (onField field (frame text'))) := by
  obtain ⟨before, after, hbefore, hframe⟩ := hframe
  intro covered
  have hstart : covers covered (unsigned (fieldName field ++ ':' :: before)) = false := by
    rw [covers_unsigned, covers_append, covers_cons_of_ne (by decide), hbefore]
  have hsplit : ∀ text, unsigned (onField field (frame text)) =
      unsigned (fieldName field ++ ':' :: before) ++ (unsigned text ++ unsigned after) := by
    intro text
    rw [hframe, onField, ← unsigned_append, ← unsigned_append]
    simp
  rw [hsplit, hsplit]
  refine (SameSkeleton.refl covered _).append ?_
  rw [hstart]
  exact (sameSkeleton_of_escaped h h').append (.refl _ _)

/-! ## Predicates without values -/

namespace Expr

/-- The operand with `null` for the constant or the variable that it is. -/
def withoutValue : Expr → Expr
  | .literal _ | .var _ => .literal .null
  | operand => operand

/-- The predicate with `null` for every constant and every variable that is compared with a field
or is the argument of a method of one.  A fragment is taken as it stands, so it is kept. -/
def withoutValues : Expr → Expr
  | .binary .andAlso left right => .binary .andAlso left.withoutValues right.withoutValues
  | .binary .orElse left right => .binary .orElse left.withoutValues right.withoutValues
  | .binary op left right => .binary op left.withoutValue right.withoutValue
  | .call method receiver arguments =>
      .call method receiver
        (if method = Method.fragment.name then arguments else arguments.map withoutValue)
  | expr => expr

/-- The variables whose values are taken as they stand. -/
def fragmentVars : Expr → List String
  | .binary _ left right => left.fragmentVars ++ right.fragmentVars
  | .call method _ [_, .var name] => if method = Method.fragment.name then [name] else []
  | _ => []

theorem withoutValues_binary_eq {op : BinaryOp} {left right other : Expr}
    (h : (binary op left right).withoutValues = other.withoutValues) :
    ∃ left' right', other = binary op left' right' ∧
      (op = .andAlso ∨ op = .orElse →
        left.withoutValues = left'.withoutValues ∧ right.withoutValues = right'.withoutValues) ∧
      (op ≠ .andAlso → op ≠ .orElse →
        left.withoutValue = left'.withoutValue ∧ right.withoutValue = right'.withoutValue) := by
  cases other with
  | binary op' left' right' =>
    refine ⟨left', right', ?_⟩
    cases op <;> cases op' <;> simp_all [withoutValues]
  | _ => cases op <;> exact nomatch h

theorem withoutValues_call_eq {name : String} {receiver : Option Expr} {arguments : List Expr}
    {other : Expr} (h : (call name receiver arguments).withoutValues = other.withoutValues) :
    ∃ arguments', other = call name receiver arguments' ∧
      (name = Method.fragment.name → arguments = arguments') := by
  cases other with
  | call name' receiver' arguments' =>
    simp only [withoutValues, call.injEq] at h
    obtain ⟨rfl, rfl, harguments⟩ := h
    refine ⟨arguments', rfl, fun hname => ?_⟩
    rwa [if_pos hname, if_pos hname] at harguments
  | binary op => cases op <;> exact nomatch h
  | _ => exact nomatch h

theorem withoutValues_field_eq {name : String} {other : Expr}
    (h : (field name).withoutValues = other.withoutValues) : other = field name := by
  cases other with
  | field => exact h.symm
  | binary op => cases op <;> exact nomatch h
  | _ => exact nomatch h

theorem mem_fragmentVars_call {receiver : Option Expr} {other : Expr} {name : String} :
    name ∈ (call Method.fragment.name receiver [other, .var name]).fragmentVars := by
  simp [fragmentVars]

end Expr

/-! ## Two runs -/

namespace Scope

theorem orient_withoutValue (op : BinaryOp) (left right : Expr) :
    orient op left.withoutValue right.withoutValue =
      (orient op left right).map fun found => (found.1, found.2.1.withoutValue, found.2.2) := by
  cases left <;> cases right <;> rfl

variable {scope scope' : Scope} {text text' : List Char}

/-- Two comparisons of one field with values. -/
theorem interchangeable_unsigned_comparison {require : BinaryOp → List Char → List Char}
    (hrequire : ∀ op, IsFrame (require op)) {op : BinaryOp} {left left' right right' : Expr}
    (hleft : left.withoutValue = left'.withoutValue)
    (hright : right.withoutValue = right'.withoutValue)
    (h : scope.comparison require op left right = .ok text)
    (h' : scope'.comparison require op left' right' = .ok text') :
    Interchangeable (unsigned text) (unsigned text') := by
  obtain ⟨field, operand, seen, value, inner, horient, _, hinner, rfl⟩ := comparison_eq_ok.mp h
  obtain ⟨field', operand', seen', value', inner', horient', _, hinner', rfl⟩ :=
    comparison_eq_ok.mp h'
  have hsides := orient_withoutValue op left right
  rw [hleft, hright, orient_withoutValue, horient, horient'] at hsides
  obtain ⟨rfl, _, rfl⟩ : field' = field ∧ operand'.withoutValue = operand.withoutValue ∧
      seen' = seen := by simpa [Except.map] using hsides
  exact interchangeable_unsigned_onField _ (hrequire _) (escaped_unsigned_valueText hinner)
    (escaped_unsigned_valueText hinner')

/-- Two calls of one method of a field. -/
theorem interchangeable_unsigned_fieldCall {method : Method} {pattern : List Char → List Char}
    (hpattern : IsFrame pattern) {receiver : Option Expr} {arguments arguments' : List Expr}
    (h : scope.fieldCall method pattern receiver arguments = .ok text)
    (h' : scope'.fieldCall method pattern receiver arguments' = .ok text') :
    Interchangeable (unsigned text) (unsigned text') := by
  obtain ⟨field, argument, value, rfl, _, _, rfl⟩ := fieldCall_eq_ok.mp h
  obtain ⟨field', argument', value', hreceiver, _, _, rfl⟩ := fieldCall_eq_ok.mp h'
  obtain rfl : field = field' := by simpa using hreceiver
  exact interchangeable_unsigned_onField _ hpattern (escaped_unsigned (escaped_escape _))
    (escaped_unsigned (escaped_escape _))

theorem value_eq_of_agree {operand : Expr}
    (hagree : ∀ name, operand = .var name → scope.resolve name = scope'.resolve name) :
    scope.value operand = scope'.value operand := by
  cases operand with
  | var name => rw [value, value, hagree name rfl]
  | _ => rfl

/-- Two calls with one fragment, which has the same value in both. -/
theorem fragmentCall_eq_of_agree {receiver : Option Expr} {arguments : List Expr}
    (hagree : ∀ other name, arguments = [other, .var name] →
      scope.resolve name = scope'.resolve name)
    (h : scope.fragmentCall receiver arguments = .ok text)
    (h' : scope'.fragmentCall receiver arguments = .ok text') : text = text' := by
  obtain ⟨field, fragment, value, _, rfl, hvalue, rfl⟩ := fragmentCall_eq_ok.mp h
  obtain ⟨field', fragment', value', _, hsame, hvalue', rfl⟩ := fragmentCall_eq_ok.mp h'
  obtain ⟨rfl, rfl⟩ : field = field' ∧ fragment = fragment' := by simpa using hsame
  have hresolve : ∀ name, fragment = .var name → scope.resolve name = scope'.resolve name := by
    rintro name rfl
    exact hagree _ name rfl
  rw [value_eq_of_agree hresolve, hvalue'] at hvalue
  rw [Except.ok.inj hvalue]

theorem interchangeable_unsigned_call {name : String} {receiver : Option Expr}
    {arguments arguments' : List Expr}
    (hsame : name = Method.fragment.name → arguments = arguments')
    (hagree : name = Method.fragment.name → ∀ other bound, arguments = [other, .var bound] →
      scope.resolve bound = scope'.resolve bound)
    (h : scope.call name receiver arguments = .ok text)
    (h' : scope'.call name receiver arguments' = .ok text') :
    Interchangeable (unsigned text) (unsigned text') := by
  rw [call] at h h'
  cases hmethod : Method.ofName? name with
  | none => exact nomatch hmethod ▸ h
  | some method =>
    rw [hmethod] at h h'
    cases method with
    | contains => exact interchangeable_unsigned_fieldCall ⟨['*'], ['*'], rfl, fun _ => rfl⟩ h h'
    | startsWith =>
      exact interchangeable_unsigned_fieldCall ⟨[], ['*'], rfl, fun _ => rfl⟩ h h'
    | endsWith =>
      exact interchangeable_unsigned_fieldCall ⟨['*'], [], rfl, fun _ => by simp⟩ h h'
    | fragment =>
      have hname : name = Method.fragment.name := (name_of_ofName? hmethod).symm
      obtain rfl := hsame hname
      rw [fragmentCall_eq_of_agree (hagree hname) h h']
      exact .refl _

end Scope

theorem unsigned_parenthesized (text : List Char) :
    unsigned (parenthesized text) = parenthesized (unsigned text) := by
  have hopen : unsignedChar '(' = '(' := by decide
  have hclose : unsignedChar ')' = ')' := by decide
  simp [parenthesized, unsigned, hopen, hclose]

theorem interchangeable_unsigned_joined {left left' right right' : List Char} (word : List Char)
    (hleft : Interchangeable (unsigned left) (unsigned left'))
    (hright : Interchangeable (unsigned right) (unsigned right')) :
    Interchangeable (unsigned (parenthesized left ++ word ++ parenthesized right))
      (unsigned (parenthesized left' ++ word ++ parenthesized right')) := by
  simp only [unsigned_append, unsigned_parenthesized]
  exact (hleft.parenthesized.append (.refl _)).append hright.parenthesized

namespace Expr

/-- Two predicates that are one without their values are written with the same grouping, wherever
what is written stands. -/
theorem interchangeable_unsigned_render {scope scope' : Scope} {first second : Expr}
    (hsame : first.withoutValues = second.withoutValues)
    (hagree : ∀ name ∈ first.fragmentVars, scope.resolve name = scope'.resolve name)
    {text text' : List Char} (h : first.render scope = .ok text)
    (h' : second.render scope' = .ok text') : Interchangeable (unsigned text) (unsigned text') := by
  have hequality : ∀ op, IsFrame ((fun _ text => text : BinaryOp → List Char → List Char) op) :=
    fun _ => ⟨[], [], rfl, fun text => by simp⟩
  fun_induction render scope first generalizing second text text' with
  | case1 left right ihleft ihright | case2 left right ihleft ihright =>
    obtain ⟨left', right', rfl, hsides, _⟩ := withoutValues_binary_eq hsame
    obtain ⟨hleft, hright⟩ := hsides (by simp)
    obtain ⟨leftText, hleftText, h⟩ := bind_eq_ok.mp h
    obtain ⟨rightText, hrightText, h⟩ := bind_eq_ok.mp h
    obtain rfl := Except.ok.inj h
    obtain ⟨leftText', hleftText', h'⟩ := bind_eq_ok.mp h'
    obtain ⟨rightText', hrightText', h'⟩ := bind_eq_ok.mp h'
    obtain rfl := Except.ok.inj h'
    refine interchangeable_unsigned_joined _ (ihleft hleft ?_ hleftText hleftText')
      (ihright hright ?_ hrightText hrightText')
    · exact fun name hname => hagree name (List.mem_append_left _ hname)
    · exact fun name hname => hagree name (List.mem_append_right _ hname)
  | case3 left right =>
    obtain ⟨left', right', rfl, _, hsides⟩ := withoutValues_binary_eq hsame
    obtain ⟨hleft, hright⟩ := hsides nofun nofun
    exact Scope.interchangeable_unsigned_comparison hequality hleft hright h h'
  | case4 left right =>
    obtain ⟨left', right', rfl, _, hsides⟩ := withoutValues_binary_eq hsame
    obtain ⟨hleft, hright⟩ := hsides nofun nofun
    obtain ⟨inner, hinner, rfl⟩ := map_eq_ok.mp h
    obtain ⟨inner', hinner', rfl⟩ := map_eq_ok.mp h'
    have hequal := Scope.interchangeable_unsigned_comparison hequality hleft hright hinner hinner'
    simp only [negation, unsigned_append, unsigned_parenthesized]
    exact (Interchangeable.refl _).append hequal.parenthesized
  | case5 left right | case6 left right | case7 left right | case8 left right =>
    obtain ⟨left', right', rfl, _, hsides⟩ := withoutValues_binary_eq hsame
    obtain ⟨hleft, hright⟩ := hsides nofun nofun
    exact Scope.interchangeable_unsigned_comparison isFrame_orderingInterval hleft hright h h'
  | case9 left right op => exact nomatch h
  | case10 name receiver arguments =>
    obtain ⟨arguments', rfl, hsame'⟩ := withoutValues_call_eq hsame
    refine Scope.interchangeable_unsigned_call hsame' (fun hname other bound harguments => ?_) h h'
    subst hname harguments
    exact hagree bound mem_fragmentVars_call
  | case11 name hboolean =>
    obtain rfl := withoutValues_field_eq hsame
    obtain rfl := Except.ok.inj h
    rw [render] at h'
    split at h'
    · obtain rfl := Except.ok.inj h'
      exact .refl _
    · exact nomatch h'
  | case12 | case13 | case14 | case15 => exact nomatch h

/-- Let two predicates be one without their values, and let the variables whose values are taken
as they stand have the same values in both scopes.  If both predicates are translated, then their
query strings have the same grouping, whatever the other values and variables are. -/
theorem grouping_translate_eq {scope scope' : Scope} {first second : Expr}
    (hsame : first.withoutValues = second.withoutValues)
    (hagree : ∀ name ∈ first.fragmentVars, scope.resolve name = scope'.resolve name)
    {text text' : String} (h : first.translate scope = .ok text)
    (h' : second.translate scope' = .ok text') : grouping text = grouping text' := by
  obtain ⟨chars, hchars, rfl⟩ := map_eq_ok.mp h
  obtain ⟨chars', hchars', rfl⟩ := map_eq_ok.mp h'
  have hskeleton := (interchangeable_unsigned_render hsame hagree hchars hchars' false).skeleton_eq
  rw [skeletonFrom_unsigned, skeletonFrom_unsigned] at hskeleton
  simpa [grouping] using hskeleton

/-- A comparison of a numeric field with a constant and a call of a method with a variable, behind
a fragment that ends in a backslash. -/
def withConstant (number : Literal) : Expr :=
  .binary .andAlso (satisfies "body" (.var "raw"))
    (.binary .orElse (.binary .lessThan (.literal number) (.field "price"))
      (contains (.field "a\\") (.var "v")))

/-- The fragment, and a value for every other variable. -/
def withVariable (value : Literal) : Scope where
  fieldType name := if name = "price" then some .numeric else none
  resolve name := if name = "raw" then some (.text "x) OR \\") else some value

/-- The query string, with what is written for the constant and the variable. -/
def withTexts (number text : String) : String :=
  "(body:(x) OR \\)) AND ((price:\x7b" ++ number ++ " TO *]) OR (a\\:*" ++ text ++ "*))"

theorem grouping_translate_eq_withTexts :
    (withConstant (.integer (-5))).withoutValues = (withConstant (.text " +.5 ")).withoutValues ∧
      (∀ name ∈ (withConstant (.integer (-5))).fragmentVars,
        (withVariable (.text ")\" (")).resolve name = (withVariable .null).resolve name) ∧
      (withConstant (.integer (-5))).translate (withVariable (.text ")\" (")) =
        .ok (withTexts "-5" "\\)\\\" \\(") ∧
      (withConstant (.text " +.5 ")).translate (withVariable .null) =
        .ok (withTexts "+.5" "null") ∧
      grouping (withTexts "-5" "\\)\\\" \\(") = grouping (withTexts "+.5" "null") := by
  have hsame : (withConstant (.integer (-5))).withoutValues =
      (withConstant (.text " +.5 ")).withoutValues := rfl
  have hagree : ∀ name ∈ (withConstant (.integer (-5))).fragmentVars,
      (withVariable (.text ")\" (")).resolve name = (withVariable .null).resolve name := by
    intro name hname
    obtain rfl : name = "raw" := by
      simpa [withConstant, satisfies, contains, callOne, fragmentVars] using hname
    rfl
  have htext : (withConstant (.integer (-5))).translate (withVariable (.text ")\" (")) =
      .ok (withTexts "-5" "\\)\\\" \\(") := rfl
  have htext' : (withConstant (.text " +.5 ")).translate (withVariable .null) =
      .ok (withTexts "+.5" "null") := rfl
  exact ⟨hsame, hagree, htext, htext', grouping_translate_eq hsame hagree htext htext'⟩

end Expr

end SearchQuery
