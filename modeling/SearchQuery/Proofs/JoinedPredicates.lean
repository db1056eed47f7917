import SearchQuery.Proofs.Outcome
import SearchQuery.Usage.Call

/-!
# Predicates that are translated together

Some predicates that must all hold are translated in a loop, which joins each query string to those
before it.  The result is that of their conjunction, an expression.

* `joinedFrom` is what the loop makes of the predicates that are left.  It follows the conjunction
  that `conjoined` builds (`render_bind_joinedFrom`), and it fails as the predicates do, taken one
  after another (`joinedFrom_eq_error_iff`).
* `upToFailure` are the predicates that are reached.  `run_joinAll` says that these are the ones
  that the loop translates, each once and in order, whatever is noted of a translation.
* `translateAll_eq_translate_conjoined` is the result.
-/

namespace SearchQuery.Expr

/-- The conjunction of predicates, each joined to those before it. -/
def conjoined (first : Expr) (rest : List Expr) : Expr :=
  rest.foldl (.binary .andAlso) first

/-- The predicates up to the first that is not translated, itself included. -/
def upToFailure (scope : Scope) (exprs : List Expr) : List Expr :=
  exprs.take (exprs.findIdx (fun expr => !(expr.translate scope).isOk) + 1)

/-- Translates a predicate, and notes which. -/
def notedTranslate (scope : Scope) (expr : Expr) :
    Recorder Expr (Except PredicateError String) := do
  Recorder.note expr
  return expr.translate scope

/-- The text of some predicates that must all hold, after others with the text `joined`. -/
def joinedFrom (scope : Scope) (joined : Option (List Char)) (exprs : List Expr) :
    Except PredicateError (List Char) :=
  match joined with
  | none => renderAll scope exprs
  | some text =>
      exprs.foldlM (fun text expr => do return conjunction text (← expr.render scope)) text

section

variable {scope : Scope}

/-! ## The loop -/

theorem joinedFrom_nil (joined : Option (List Char)) :
    joinedFrom scope joined [] = .ok (joined.getD matchAll) := by
  cases joined <;> rfl

theorem joinedFrom_cons (joined : Option (List Char)) (expr : Expr) (rest : List Expr) :
    joinedFrom scope joined (expr :: rest) = expr.render scope >>= fun text =>
      joinedFrom scope (some (joined.elim text (conjunction · text))) rest := by
  cases joined with
  | none => rfl
  | some text => simp only [joinedFrom, List.foldlM_cons, bind_assoc, pure_bind, Option.elim]

/-- The loop fails as the predicates do, taken one after another. -/
theorem joinedFrom_eq_error_iff {joined : Option (List Char)} {exprs : List Expr}
    {error : PredicateError} :
    joinedFrom scope joined exprs = .error error ↔
      exprs.mapM (render scope) = .error error := by
  induction exprs generalizing joined with
  | nil => simp [joinedFrom_nil, pure, Except.pure]
  | cons expr rest ih =>
    rw [joinedFrom_cons, bind_eq_error, List.mapM_cons, both_eq_error]
    simp only [ih, exists_and_right]

/-! ## The conjunction -/

/-- What the loop makes of predicates after the first is what their conjunction is rendered as. -/
theorem render_bind_joinedFrom (first : Expr) (rest : List Expr) :
    (first.render scope >>= fun text => joinedFrom scope (some text) rest) =
      (conjoined first rest).render scope := by
  induction rest generalizing first with
  | nil => exact bind_pure (first.render scope)
  | cons expr rest ih =>
    have hstep : (Expr.binary .andAlso first expr).render scope =
        first.render scope >>= fun text => do return conjunction text (← expr.render scope) := rfl
    calc
      (first.render scope >>= fun text => joinedFrom scope (some text) (expr :: rest))
          = (Expr.binary .andAlso first expr).render scope >>= fun text =>
              joinedFrom scope (some text) rest := by
            simp only [hstep, joinedFrom_cons, bind_assoc, pure_bind, Option.elim]
      _ = (conjoined first (expr :: rest)).render scope := ih _

theorem translateAll_cons (first : Expr) (rest : List Expr) :
    translateAll scope (first :: rest) = (conjoined first rest).translate scope := by
  have hrender : renderAll scope (first :: rest) = (conjoined first rest).render scope :=
    render_bind_joinedFrom first rest
  rw [translateAll, hrender, translate]

theorem conjoined_append (first : Expr) (rest exprs : List Expr) :
    conjoined first (rest ++ exprs) = conjoined (conjoined first rest) exprs :=
  List.foldl_append

/-! ## What is translated -/

theorem upToFailure_cons (expr : Expr) (rest : List Expr) :
    upToFailure scope (expr :: rest) =
      expr :: if (expr.translate scope).isOk then upToFailure scope rest else [] := by
  rw [upToFailure, upToFailure, List.findIdx_cons]
  cases (expr.translate scope).isOk <;> simp

theorem upToFailure_append {before after : List Expr} {failing : Expr} {error : PredicateError}
    (hbefore : ∀ expr ∈ before, ∃ text, expr.translate scope = .ok text)
    (hfailing : failing.translate scope = .error error) :
    upToFailure scope (before ++ failing :: after) = before ++ [failing] := by
  induction before with
  | nil =>
    rw [List.nil_append, upToFailure_cons, hfailing]
    rfl
  | cons expr before ih =>
    rw [List.forall_mem_cons] at hbefore
    obtain ⟨⟨text, htext⟩, hbefore⟩ := hbefore
    rw [List.cons_append, upToFailure_cons, htext, ih hbefore]
    rfl

/-- Whatever is noted of each translation, the loop notes it of the predicates that are reached. -/
theorem run_joinAll {ω : Type} {translate : Expr → Recorder ω (Except PredicateError String)}
    {noted : Expr → List ω}
    (h : ∀ expr log, (translate expr).run log = (expr.translate scope, log ++ noted expr))
    (joined : Option (List Char)) (exprs : List Expr) (log : List ω) :
    (joinAll translate joined exprs).run log =
      ((joinedFrom scope joined exprs).map String.ofList,
        log ++ (upToFailure scope exprs).flatMap noted) := by
  induction exprs generalizing joined log with
  | nil =>
    show (Except.ok (String.ofList (joined.getD matchAll)), log) = _
    simp [joinedFrom_nil, upToFailure, Except.map]
  | cons expr rest ih =>
    have htranslate : expr.translate scope = (expr.render scope).map String.ofList := rfl
    rw [joinAll, StateT.run_bind, h, joinedFrom_cons, upToFailure_cons, htranslate]
    cases expr.render scope with
    | ok text =>
      have htext : (String.ofList text).toList = text := String.toList_ofList
      show (joinAll translate (some (joined.elim (String.ofList text).toList
        (conjunction · (String.ofList text).toList))) rest).run (log ++ noted expr) = _
      rw [htext, ih]
      simp [Except.map, Except.isOk, Except.toBool, ok_bind]
    | error error =>
      show (Except.error error, log ++ noted expr) = _
      simp [Except.map, Except.isOk, Except.toBool, bind, Except.bind]

theorem translateAll_eq_error_iff {exprs : List Expr} {error : PredicateError} :
    translateAll scope exprs = .error error ↔
      ∃ before failing after, exprs = before ++ failing :: after ∧
        (∀ expr ∈ before, ∃ text, expr.translate scope = .ok text) ∧
        failing.translate scope = .error error := by
  rw [translateAll, map_eq_error, ← mapM_eq_error]
  have htranslate : exprs.mapM (translate scope) = .error error ↔
      exprs.mapM (render scope) = .error error := by
    simp only [mapM_eq_error, translate, exists_map_eq_ok, map_eq_error]
  rw [htranslate]
  exact @joinedFrom_eq_error_iff scope none exprs error

end

/-- Some predicates are translated together like their conjunction, each joined to those before it,
and without predicates every document matches.  So the first of them may as well be joined before.
The loop fails at the first predicate that fails, with its error, and has translated those up to it
and no others. -/
theorem translateAll_eq_translate_conjoined (scope : Scope) :
    translateAll scope [] = .ok "*:*" ∧
      (∀ first rest, translateAll scope (first :: rest) = (conjoined first rest).translate scope) ∧
      (∀ first rest exprs, translateAll scope (first :: rest ++ exprs) =
        translateAll scope (conjoined first rest :: exprs)) ∧
      (∀ exprs, ((joinAll (notedTranslate scope) none exprs).run []).1 =
        translateAll scope exprs) ∧
      ∀ exprs error reached,
        (joinAll (notedTranslate scope) none exprs).run [] = (.error error, reached) ↔
          ∃ before failing after, exprs = before ++ failing :: after ∧
            (∀ expr ∈ before, ∃ text, expr.translate scope = .ok text) ∧
            failing.translate scope = .error error ∧ reached = before ++ [failing] := by
  have hrun (exprs : List Expr) : (joinAll (notedTranslate scope) none exprs).run [] =
      (translateAll scope exprs, upToFailure scope exprs) := by
    have hnoted : ∀ expr log, (notedTranslate scope expr).run log =
        (expr.translate scope, log ++ [expr]) := fun _ _ => rfl
    rw [run_joinAll hnoted]
    simp [joinedFrom, translateAll]
  refine ⟨rfl, translateAll_cons, fun first rest exprs => ?_, fun exprs => ?_, ?_⟩
  · rw [List.cons_append, translateAll_cons, translateAll_cons, conjoined_append]
  · rw [hrun]
  · intro exprs error reached
    rw [hrun, Prod.mk.injEq, translateAll_eq_error_iff]
    constructor
    · rintro ⟨⟨before, failing, after, rfl, hbefore, hfailing⟩, rfl⟩
      exact ⟨before, failing, after, rfl, hbefore, hfailing, upToFailure_append hbefore hfailing⟩
    · rintro ⟨before, failing, after, rfl, hbefore, hfailing, rfl⟩
      exact ⟨⟨before, failing, after, rfl, hbefore, hfailing⟩,
        upToFailure_append hbefore hfailing⟩

end SearchQuery.Expr
