import SearchQuery.Proofs.Connectives
import SearchQuery.Proofs.PredicateTexts

/-!
# Reading connectives back

The query string of a predicate determines how its comparisons and calls are connected.

* Whatever the values are, a comparison and a call of a method are tests of a field
  (`isTest_comparison`, `isTest_fieldCall`).
* `render_eq` says that a predicate is written as its tree of connectives.
* `connectives_of_translate_eq` is the result for two predicates with one query string.
-/

namespace SearchQuery

open Text

/-! ## Values -/

theorem balanced_of_isNumberText {text : List Char} (h : Number.IsNumberText text) :
    Balanced text := by
  refine balanced_of_isFlat (List.all_eq_true.mpr fun c hc => ?_)
  have hne : ∀ d, Number.isNumberChar d = false → c ≠ d := fun _ hd => h.ne_of_mem hc hd
  simp [isFlat, hne '(' (by decide), hne ')' (by decide), hne '\\' (by decide)]

theorem balanced_boolText (value : Bool) : Balanced (Json.boolText value) := by
  cases value <;> exact balanced_of_isFlat rfl

namespace Scope

/-- Whatever a field is compared with, its text is balanced. -/
theorem balanced_valueText {scope : Scope} {field : String} {value : Literal} {text : List Char}
    (h : scope.valueText field value = .ok text) : Balanced text := by
  rcases isNumberText_or_escaped_valueText h with hnumber | hescaped
  · exact balanced_of_isNumberText hnumber
  · exact hescaped.balanced

/-! ## Comparisons and calls -/

theorem balanced_interval {opening closing : Char} {low high : List Char}
    (hopening : isFlat opening = true) (hclosing : isFlat closing = true) (hlow : Balanced low)
    (hhigh : Balanced high) : Balanced (interval opening low high closing) := by
  have hbracket : ∀ c, isFlat c = true → Balanced [c] := by
    intro c hc
    exact balanced_of_isFlat (by rw [List.all_cons, hc]; rfl)
  have hto : Balanced " TO ".toList := balanced_of_isFlat rfl
  exact (hbracket opening hopening).append
    (((hlow.append hto).append hhigh).append (hbracket closing hclosing))

theorem balanced_orderingInterval (op : BinaryOp) {value : List Char} (h : Balanced value) :
    Balanced (orderingInterval op value) := by
  have hstar : Balanced ['*'] := balanced_of_isFlat rfl
  unfold orderingInterval
  split
  · exact balanced_interval rfl rfl h hstar
  · exact balanced_interval rfl rfl h hstar
  · exact balanced_interval rfl rfl hstar h
  · exact balanced_interval rfl rfl hstar h

end Scope

/-! ## Clean predicates -/

namespace Expr

mutual

/-- Whether every field of an expression is a plain name, and no fragment is taken as it stands. -/
def isClean : Expr → Bool
  | field name => isPlainName name
  | literal _ | var _ => true
  | binary _ left right => left.isClean && right.isClean
  | unary _ operand => operand.isClean
  | call method receiver arguments =>
      method ≠ Method.fragment.name && cleanReceiver receiver && allClean arguments

/-- Whether a receiver is clean, if there is one. -/
def cleanReceiver : Option Expr → Bool
  | none => true
  | some receiver => receiver.isClean

/-- Whether some expressions are clean. -/
def allClean : List Expr → Bool
  | [] => true
  | expr :: rest => expr.isClean && allClean rest

end

end Expr

namespace Scope

theorem isPlainName_of_orient {op op' : BinaryOp} {left right operand : Expr} {field : String}
    (hleft : left.isClean = true) (hright : right.isClean = true)
    (h : orient op left right = .ok (field, operand, op')) : isPlainName field = true := by
  rcases orient_eq_ok h with ⟨rfl, _⟩ | ⟨_, rfl⟩
  · exact hleft
  · exact hright

theorem isTest_comparison {scope : Scope} {require : BinaryOp → List Char → List Char}
    (hrequire : ∀ op {text}, Balanced text → Balanced (require op text)) {op : BinaryOp}
    {left right : Expr} (hleft : left.isClean = true) (hright : right.isClean = true)
    {text : List Char} (h : scope.comparison require op left right = .ok text) :
    IsTest text := by
  obtain ⟨field, operand, op', value, inner, horient, _, hinner, rfl⟩ := comparison_eq_ok.mp h
  exact ⟨field, _, isPlainName_of_orient hleft hright horient,
    hrequire op' (balanced_valueText hinner), rfl⟩

theorem isTest_equality {scope : Scope} {op : BinaryOp} {left right : Expr}
    (hleft : left.isClean = true) (hright : right.isClean = true) {text : List Char}
    (h : scope.equality op left right = .ok text) : IsTest text :=
  isTest_comparison (fun _ _ htext => htext) hleft hright h

theorem isTest_ordering {scope : Scope} {op : BinaryOp} {left right : Expr}
    (hleft : left.isClean = true) (hright : right.isClean = true) {text : List Char}
    (h : scope.ordering op left right = .ok text) : IsTest text :=
  isTest_comparison (fun op _ htext => balanced_orderingInterval op htext) hleft hright h

theorem isTest_fieldCall {scope : Scope} {method : Method} {pattern : List Char → List Char}
    (hpattern : ∀ {text}, Balanced text → Balanced (pattern text)) {receiver : Option Expr}
    {arguments : List Expr} (hclean : Expr.cleanReceiver receiver = true) {text : List Char}
    (h : scope.fieldCall method pattern receiver arguments = .ok text) : IsTest text := by
  obtain ⟨field, argument, value, rfl, rfl, _, rfl⟩ := fieldCall_eq_ok.mp h
  exact ⟨field, _, hclean, hpattern (escaped_escape _).balanced, rfl⟩

theorem isTest_call {scope : Scope} {name : String} {receiver : Option Expr}
    {arguments : List Expr} (hclean : (Expr.call name receiver arguments).isClean = true)
    {text : List Char} (h : scope.call name receiver arguments = .ok text) : IsTest text := by
  have hstar : Balanced ['*'] := balanced_of_isFlat rfl
  simp only [Expr.isClean, Bool.and_eq_true, decide_eq_true_eq] at hclean
  obtain ⟨⟨hname, hreceiver⟩, _⟩ := hclean
  unfold call at h
  split at h
  · exact isTest_fieldCall (fun htext => hstar.append (htext.append hstar)) hreceiver h
  · exact isTest_fieldCall (fun htext => htext.append hstar) hreceiver h
  · exact isTest_fieldCall (fun htext => hstar.append htext) hreceiver h
  · rename_i hfragment
    exact absurd (name_of_ofName? hfragment).symm hname
  · exact nomatch h

end Scope

/-! ## The tree of a predicate -/

namespace Expr

/-- The connectives of a predicate over the texts of its comparisons and calls.  What is unequal
is the negation of what is equal. -/
def connectives (scope : Scope) : Expr → Except PredicateError ConnectiveTree
  | .binary .andAlso left right => do
      return .conjunction (← left.connectives scope) (← right.connectives scope)
  | .binary .orElse left right => do
      return .disjunction (← left.connectives scope) (← right.connectives scope)
  | .binary .notEqual left right =>
      (scope.equality .notEqual left right).map fun text => .negation (.leaf text)
  | expr => (expr.render scope).map .leaf

/-- A predicate is written as its tree. -/
theorem render_eq (scope : Scope) (expr : Expr) :
    expr.render scope = (expr.connectives scope).map ConnectiveTree.text := by
  fun_induction connectives scope expr with
  | case1 left right ihleft ihright =>
    rw [render, ihleft, ihright]
    cases left.connectives scope with
    | error e => rfl
    | ok tree => cases right.connectives scope <;> rfl
  | case2 left right ihleft ihright =>
    rw [render, ihleft, ihright]
    cases left.connectives scope with
    | error e => rfl
    | ok tree => cases right.connectives scope <;> rfl
  | case3 left right =>
    rw [render]
    cases scope.equality .notEqual left right <;> rfl
  | case4 expr =>
    cases expr.render scope <;> rfl

/-- What is no connective is a test of a field. -/
theorem isTest_render {scope : Scope} {expr : Expr} (hclean : expr.isClean = true)
    (hand : ∀ left right, expr = .binary .andAlso left right → False)
    (hor : ∀ left right, expr = .binary .orElse left right → False)
    (hne : ∀ left right, expr = .binary .notEqual left right → False) {text : List Char}
    (h : expr.render scope = .ok text) : IsTest text := by
  cases expr with
  | binary op left right =>
    obtain ⟨hleft, hright⟩ := Bool.and_eq_true_iff.mp hclean
    cases op with
    | andAlso => exact (hand left right rfl).elim
    | orElse => exact (hor left right rfl).elim
    | notEqual => exact (hne left right rfl).elim
    | equal => exact Scope.isTest_equality hleft hright h
    | greaterThan => exact Scope.isTest_ordering hleft hright h
    | greaterThanOrEqual => exact Scope.isTest_ordering hleft hright h
    | lessThan => exact Scope.isTest_ordering hleft hright h
    | lessThanOrEqual => exact Scope.isTest_ordering hleft hright h
    | add => exact nomatch h
    | subtract => exact nomatch h
    | multiply => exact nomatch h
    | divide => exact nomatch h
    | modulo => exact nomatch h
  | call name receiver arguments => exact Scope.isTest_call hclean h
  | field name =>
    rw [render] at h
    split at h
    · obtain rfl := Except.ok.inj h
      exact ⟨name, _, hclean, balanced_boolText true, rfl⟩
    · exact nomatch h
  | literal => exact nomatch h
  | var => exact nomatch h
  | unary => exact nomatch h

theorem hasTests_connectives {scope : Scope} {expr : Expr} (hclean : expr.isClean = true)
    {tree : ConnectiveTree} (h : expr.connectives scope = .ok tree) : tree.HasTests := by
  fun_induction connectives scope expr generalizing tree with
  | case1 left right ihleft ihright =>
    obtain ⟨cleft, cright⟩ := Bool.and_eq_true_iff.mp hclean
    obtain ⟨leftTree, hleft, h⟩ := bind_eq_ok.mp h
    obtain ⟨rightTree, hright, h⟩ := bind_eq_ok.mp h
    obtain rfl := Except.ok.inj h
    exact ⟨ihleft cleft hleft, ihright cright hright⟩
  | case2 left right ihleft ihright =>
    obtain ⟨cleft, cright⟩ := Bool.and_eq_true_iff.mp hclean
    obtain ⟨leftTree, hleft, h⟩ := bind_eq_ok.mp h
    obtain ⟨rightTree, hright, h⟩ := bind_eq_ok.mp h
    obtain rfl := Except.ok.inj h
    exact ⟨ihleft cleft hleft, ihright cright hright⟩
  | case3 left right =>
    obtain ⟨cleft, cright⟩ := Bool.and_eq_true_iff.mp hclean
    obtain ⟨text, htext, rfl⟩ := map_eq_ok.mp h
    exact Scope.isTest_equality cleft cright htext
  | case4 expr hand hor hne =>
    obtain ⟨text, htext, rfl⟩ := map_eq_ok.mp h
    exact isTest_render hclean hand hor hne htext

/-- A clean predicate that is translated has a tree, and its query string is the tree's. -/
theorem exists_connectives {scope : Scope} {expr : Expr} (hclean : expr.isClean = true)
    {text : String} (h : expr.translate scope = .ok text) :
    ∃ tree, expr.connectives scope = .ok tree ∧ tree.HasTests ∧ tree.text = text.toList := by
  obtain ⟨chars, hchars, rfl⟩ := map_eq_ok.mp h
  rw [render_eq] at hchars
  obtain ⟨tree, htree, rfl⟩ := map_eq_ok.mp hchars
  exact ⟨tree, htree, hasTests_connectives hclean htree, String.toList_ofList.symm⟩

/-- Whatever the scopes and the values are, the query string of a clean predicate is balanced, and
every clean predicate with the same query string has the same connectives. -/
theorem connectives_of_translate_eq {scope : Scope} {expr : Expr} (hclean : expr.isClean = true)
    {text : String} (h : expr.translate scope = .ok text) :
    Balanced text.toList ∧ ∃ tree, expr.connectives scope = .ok tree ∧
      ∀ (scope' : Scope) (other : Expr), other.isClean = true →
        other.translate scope' = .ok text → other.connectives scope' = .ok tree := by
  obtain ⟨tree, htree, htests, htext⟩ := exists_connectives hclean h
  refine ⟨htext ▸ ConnectiveTree.balanced_text htests, tree, htree, ?_⟩
  intro scope' other hother h'
  obtain ⟨tree', htree', htests', htext'⟩ := exists_connectives hother h'
  rw [htree', ConnectiveTree.text_injective htests' htests (htext'.trans htext.symm)]

/-- A numeric field, and a variable with the text of a connective. -/
def sampleScope : Scope where
  fieldType name := if name = "price" then some .numeric else none
  resolve _ := some (.text ") AND (b")

/-- A disjunction beside a negation. -/
def samplePredicate : Expr :=
  .binary .andAlso
    (.binary .orElse (.binary .lessThan (.literal (.integer 5)) (.field "price"))
      (contains (.field "name") (.literal (.text "(\\"))))
    (.binary .notEqual (.field "name") (.var "v"))

/-- The query string of the predicate. -/
def sampleText : String :=
  "((price:\x7b5 TO *]) OR (name:*\\(\\\\*)) AND (NOT (name:\\) AND \\(b))"

theorem connectives_of_translate_eq_sampleText :
    samplePredicate.isClean = true ∧ samplePredicate.translate sampleScope = .ok sampleText ∧
      Balanced sampleText.toList ∧ ∃ tree, samplePredicate.connectives sampleScope = .ok tree ∧
        ∀ (scope' : Scope) (other : Expr), other.isClean = true →
          other.translate scope' = .ok sampleText → other.connectives scope' = .ok tree := by
  have hclean : samplePredicate.isClean = true := by decide
  have htext : samplePredicate.translate sampleScope = .ok sampleText := rfl
  exact ⟨hclean, htext, connectives_of_translate_eq hclean htext⟩

end Expr

end SearchQuery
