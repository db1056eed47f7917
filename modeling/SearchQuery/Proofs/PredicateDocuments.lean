import SearchQuery.Proofs.PredicateClauses
import SearchQuery.Proofs.QueryDocuments

/-!
# Predicates and documents

What a comparison and the document of its counterpart are translated to.

* `Document.parse_ofField` reads the document of a single clause of one field.
* `translate_eq_translate_ofField` compares the two front ends: a whole number on a numeric field is
  written with the same text if it has no sign, and an ordering on a field of text is the range
  with its bound if there is nothing to escape in the bound.
-/

namespace SearchQuery

open Text Json

/-! ## Whole numbers -/

/-- A whole number is left alone by escaping if and only if it has no sign. -/
theorem escape_intText_eq_iff (n : Int) :
    escape (Number.intText n) = Number.intText n ↔ 0 ≤ n := by
  cases n with
  | ofNat n =>
    refine ⟨fun _ => Int.natCast_nonneg n, fun _ => escape_of_isPlainChar fun c hc => ?_⟩
    exact Number.isPlainChar_of_mem_natText hc
  | negSucc n =>
    refine ⟨fun heq => ?_, fun h => absurd h (by simp)⟩
    have hescaped : Escaped ('-' :: Number.natText (n + 1)) := by
      have hself := escaped_escape (Number.intText (.negSucc n))
      rwa [heq] at hself
    cases hescaped with
    | plain _ hplain _ => exact absurd hplain (by decide)

theorem not_isBlank_of_mem_intText {n : Int} {c : Char} (h : c ∈ Number.intText n) :
    isBlank c = false :=
  Number.not_isBlank_of_isNumberChar (Number.isNumberText_intText n c h)

/-! ## Documents -/

namespace Document

/-- The document of a clause of one field. -/
def ofField (kind : Kind) (field : String) (body : Value) : Value :=
  .tagged kind.name (.tagged field body)

section

variable {config : Config} {field : String}

/-- The document of a clause of one field is read as this clause. -/
theorem parse_ofField (hlevels : 0 < config.maxNestingDepth) {kind : Kind} {body : Value}
    (hfits : body.Fits (maxNesting - 2))
    (hsize : (ofField kind field body).compact.utf8ByteSize ≤ config.maxInputBytes) :
    ∃ entry, parse config (ofField kind field body).compact =
      readClause entry (.tagged field body) kind := by
  obtain ⟨levels, hdepth⟩ := Nat.exists_eq_succ_of_ne_zero (Nat.ne_of_gt hlevels)
  have hroot : (ofField kind field body).Fits maxNesting :=
    (hfits.tagged field).tagged kind.name
  refine ⟨readQuery (levels + 1) levels, ?_⟩
  rw [parse_compact hroot hsize, ofField, queryOf_tagged, hdepth, readQuery, Value.tagged,
    readWith, clause?_tagged]

/-- The document of a single value is translated to the text of the value, escaped. -/
theorem translate_ofField_term (hlevels : 0 < config.maxNestingDepth) (hne : field ≠ "") (n : Int)
    (hsize : (ofField .term field (.int n)).compact.utf8ByteSize ≤ config.maxInputBytes) :
    translate config (ofField .term field (.int n)).compact =
      .ok ((Query.term field (String.ofList (Number.intText n))).emitWith
        config.defaultFuzziness) := by
  obtain ⟨entry, hparse⟩ := parse_ofField hlevels (Value.fits_int n) hsize
  rw [translate, hparse, readClause, readPair, fieldAndValue, Value.tagged, firstField,
    if_neg hne]
  rfl

/-- The document of a range with one bound is translated to the text of the range. -/
theorem translate_ofField_range (hlevels : 0 < config.maxNestingDepth) (hne : field ≠ "")
    (bound : Bound) (value : String)
    (hsize : (ofField .range field (.tagged bound.name (.string value))).compact.utf8ByteSize ≤
      config.maxInputBytes) :
    translate config (ofField .range field (.tagged bound.name (.string value))).compact =
      .ok ((Query.range (Range.set { field } bound value)).emitWith config.defaultFuzziness) := by
  have hfits : (Value.tagged bound.name (.string value)).Fits (maxNesting - 2) :=
    Value.Fits.tagged (.string value) bound.name
  obtain ⟨entry, hparse⟩ := parse_ofField hlevels hfits hsize
  rw [translate, hparse, readClause, readRange, Value.tagged, firstField, if_neg hne]
  cases bound <;> rfl

end

end Document

/-! ## Comparisons -/

namespace Expr

variable {config : Config} {scope : Scope} {field : String}

/-- On a numeric field a whole number is written with its sign. -/
theorem translate_equal_integer (hfield : scope.fieldType field = some .numeric) (n : Int64) :
    (binary .equal (.field field) (.literal (.integer n))).translate scope =
      .ok (String.ofList (onField field (Number.intText n.toInt))) := by
  have hvalue : scope.value (.literal (.integer n)) = .ok (.integer n) := rfl
  have horient := Scope.orient_field_left (Scope.ne_field_of_value hvalue) .equal field
  have htext : scope.valueText field (.integer n) = .ok (Number.intText n.toInt) :=
    (Scope.valueText_numeric hfield).mpr rfl
  rw [translate, render, Scope.equality, Scope.comparison_of_orient horient hvalue, htext]
  rfl

/-- On a field of no particular type the bound of an ordering is escaped. -/
theorem translate_ordering_text {op : BinaryOp} {bound : Bound} (hbound : op.bound? = some bound)
    (hnumeric : scope.fieldType field ≠ some .numeric)
    (hboolean : scope.fieldType field ≠ some .boolean) (value : String) :
    (binary op (.field field) (.literal (.text value))).translate scope =
      .ok (String.ofList (onField field (Scope.orderingInterval op (escape value.toList)))) := by
  have hvalue : scope.value (.literal (.text value)) = .ok (.text value) := rfl
  have horient := Scope.orient_field_left (Scope.ne_field_of_value hvalue) op field
  have htext : scope.valueText field (.text value) = .ok (escape value.toList) :=
    Scope.valueText_plain hnumeric hboolean
  rw [translate, render_ordering hbound, Scope.ordering, Scope.comparison_of_orient horient hvalue,
    htext]
  rfl

/-! ## Both front ends -/

theorem onField_inj {text text' : List Char} :
    onField field text = onField field text' ↔ text = text' := by
  simp [onField]

theorem emitWith_term_intText (htrimmed : IsTrimmed field.toList) (n : Int) (fuzziness : UInt32) :
    (Query.term field (String.ofList (Number.intText n))).emitWith fuzziness =
      String.ofList (onField field (escape (Number.intText n))) := by
  have hstart : trimStart (fieldName field) = fieldName field := trimStart_eq_self htrimmed.head
  have hend := trimEnd_escape fun c hc => not_isBlank_of_mem_intText (n := n) hc
  rw [Query.emitWith, Query.render, Query.trim_onField, String.toList_ofList, hstart, hend]
  rfl

theorem emitWith_range_set (htrimmed : IsTrimmed field.toList) {op : BinaryOp} {bound : Bound}
    (hbound : op.bound? = some bound) (value : String) (fuzziness : UInt32) :
    (Query.range (Range.set { field } bound value)).emitWith fuzziness =
      String.ofList (onField field (Scope.orderingInterval op value.toList)) := by
  have hstart : trimStart (fieldName field) = fieldName field := trimStart_eq_self htrimmed.head
  have hend : IsTrimmed (Scope.orderingInterval op value.toList) := by
    cases op with
    | greaterThan | greaterThanOrEqual | lessThan | lessThanOrEqual =>
      exact isTrimmed_between (by decide) (by decide) _
    | _ => exact nomatch hbound
  rw [Query.emitWith, Query.render, Range.render_set hbound, Query.trim_onField, hstart,
    hend.trimEnd_eq]
  rfl

/-- The two front ends write the same constants in the same way, as far as each writes them as they
are.  On a field that is declared numeric a whole number has the same text in an equality and in
the document of a single value, if and only if it is not negative.  On a field that is declared
neither numeric nor boolean a text that escaping leaves alone has the same text in an ordering and
in the document of a range with the bound of the ordering.  All of them are translated, if the
document is no longer than is allowed. -/
theorem translate_eq_translate_ofField (hlevels : 0 < config.maxNestingDepth) (hne : field ≠ "")
    (htrimmed : IsTrimmed field.toList) (scope : Scope) :
    (scope.fieldType field = some .numeric → ∀ n : Int64,
      (Document.ofField .term field (.int n.toInt)).compact.utf8ByteSize ≤ config.maxInputBytes →
      ∃ text text',
        (binary .equal (.field field) (.literal (.integer n))).translate scope = .ok text ∧
        Document.translate config (Document.ofField .term field (.int n.toInt)).compact =
          .ok text' ∧
        (text = text' ↔ 0 ≤ n.toInt)) ∧
    (scope.fieldType field ≠ some .numeric → scope.fieldType field ≠ some .boolean →
      ∀ op bound, op.bound? = some bound →
      ∀ value : String, escape value.toList = value.toList →
      (Document.ofField .range field (.tagged bound.name (.string value))).compact.utf8ByteSize ≤
        config.maxInputBytes →
      ∃ text,
        (binary op (.field field) (.literal (.text value))).translate scope = .ok text ∧
        Document.translate config
          (Document.ofField .range field (.tagged bound.name (.string value))).compact =
            .ok text) := by
  constructor
  · intro hfield n hsize
    refine ⟨_, _, translate_equal_integer hfield n,
      Document.translate_ofField_term hlevels hne n.toInt hsize, ?_⟩
    rw [emitWith_term_intText htrimmed, String.ofList_inj, onField_inj, eq_comm,
      escape_intText_eq_iff]
  · intro hnumeric hboolean op bound hbound value hescape hsize
    have hordering := translate_ordering_text hbound hnumeric hboolean value
    have hdocument := Document.translate_ofField_range hlevels hne bound value hsize
    rw [hescape] at hordering
    rw [emitWith_range_set htrimmed hbound] at hdocument
    exact ⟨_, hordering, hdocument⟩

/-- One field that is declared numeric, and no variables. -/
def priceScope : Scope where
  fieldType name := if name = "price" then some .numeric else none
  resolve _ := none

/-- Both front ends on a number without a sign and on a bound with a blank in it. -/
theorem translate_eq_translate_ofField_priceScope :
    ((binary .equal (.field "price") (.literal (.integer 5))).translate priceScope =
        .ok "price:5" ∧
      Document.translate {} "\x7b\"term\":\x7b\"price\":5\x7d\x7d" = .ok "price:5") ∧
    ((binary .lessThan (.field "name") (.literal (.text "a b"))).translate priceScope =
        .ok "name:[* TO a b\x7d" ∧
      Document.translate {} "\x7b\"range\":\x7b\"name\":\x7b\"lt\":\"a b\"\x7d\x7d\x7d" =
        .ok "name:[* TO a b\x7d") := by
  have hequal : (binary .equal (.field "price") (.literal (.integer 5))).translate priceScope =
      .ok "price:5" := rfl
  have hless : (binary .lessThan (.field "name") (.literal (.text "a b"))).translate priceScope =
      .ok "name:[* TO a b\x7d" := rfl
  have hprice : IsTrimmed "price".toList :=
    isTrimmed_between (c := 'p') (d := 'e') (by decide) (by decide) "ric".toList
  have hname : IsTrimmed "name".toList :=
    isTrimmed_between (c := 'n') (d := 'e') (by decide) (by decide) "am".toList
  have hterm : (Document.ofField .term "price" (.int 5)).compact =
      "\x7b\"term\":\x7b\"price\":5\x7d\x7d" := by decide
  have hrange : (Document.ofField .range "name" (.tagged "lt" (.string "a b"))).compact =
      "\x7b\"range\":\x7b\"name\":\x7b\"lt\":\"a b\"\x7d\x7d\x7d" := by decide
  refine ⟨⟨hequal, ?_⟩, hless, ?_⟩
  · obtain ⟨text, text', htext, htext', hiff⟩ := (@translate_eq_translate_ofField {} "price"
      (by decide) (by decide) hprice priceScope).1 rfl 5 (by decide)
    have hsame : text = text' := hiff.mpr (by decide)
    rw [hequal] at htext
    rw [← hterm, Except.ok.inj htext, hsame]
    exact htext'
  · obtain ⟨text, htext, htext'⟩ := (@translate_eq_translate_ofField {} "name" (by decide)
      (by decide) hname priceScope).2 nofun nofun .lessThan .lt rfl
      "a b" (by decide) (by decide)
    rw [hless] at htext
    rw [← hrange, Except.ok.inj htext]
    exact htext'

/-- Escaping sets the two apart.  A negative number is written with its sign by a comparison and
with an escaped sign by a document.  In the bound of a range it is the comparison that escapes. -/
theorem translate_ne_translate_ofField_priceScope :
    ((binary .equal (.field "price") (.literal (.integer (-5)))).translate priceScope =
        .ok "price:-5" ∧
      Document.translate {} "\x7b\"term\":\x7b\"price\":-5\x7d\x7d" = .ok "price:\\-5") ∧
    ((binary .greaterThan (.field "name") (.literal (.text "a+b"))).translate priceScope =
        .ok "name:\x7ba\\+b TO *]" ∧
      Document.translate {} "\x7b\"range\":\x7b\"name\":\x7b\"gt\":\"a+b\"\x7d\x7d\x7d" =
        .ok "name:\x7ba+b TO *]") := by
  have hterm : (Document.ofField .term "price" (.int (-5))).compact =
      "\x7b\"term\":\x7b\"price\":-5\x7d\x7d" := by decide
  have hrange : (Document.ofField .range "name" (.tagged "gt" (.string "a+b"))).compact =
      "\x7b\"range\":\x7b\"name\":\x7b\"gt\":\"a+b\"\x7d\x7d\x7d" := by decide
  refine ⟨⟨rfl, ?_⟩, rfl, ?_⟩
  · rw [← hterm, @Document.translate_ofField_term {} "price" (by decide) (by decide) (-5)
      (by decide)]
    rfl
  · rw [← hrange]
    exact @Document.translate_ofField_range {} "name" (by decide) (by decide) .gt "a+b" (by decide)

end Expr

end SearchQuery
