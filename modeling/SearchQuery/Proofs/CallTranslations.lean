import SearchQuery.Proofs.JoinedPredicates

/-!
# What calls record

A call makes translations (`Call.translations`): none, one, or several if predicates are translated
together.  A translation ends well or for a reason, and `Translation.events_eq` says what it records
either way.  `run_perform` says that a call records what its translations do, and
`recordedBy_eq` that calls do so one after another.

`Document.events` and `Expr.events` are what one translation records, as a list; that the recorder
notes just this list is `Document.run_recordedParse` and `Expr.run_recordedTranslate`.
-/

namespace SearchQuery

/-! ## Translations -/

/-- The reasons for which a front-end refuses inputs. -/
def Frontend.reasons : Frontend → List String
  | document => ["validation", "format", "too_deep", "unsupported_query", "invalid_clause"]
  | predicate => ["unsupported_operation", "unbound_value", "type_mismatch"]

theorem DocumentError.reason_mem_reasons (error : DocumentError) :
    error.reason ∈ Frontend.document.reasons := by
  cases error <;> simp [reason, Frontend.reasons]

theorem PredicateError.reason_mem_reasons (error : PredicateError) :
    error.reason ∈ Frontend.predicate.reasons := by
  cases error <;> simp [reason, Frontend.reasons]

/-- The events of a finished translation. -/
def Frontend.outcome (frontend : Frontend) (reason : ε → String) : Except ε α → List Event
  | .ok _ => [.operation frontend.label "success"]
  | .error error =>
      [.operation frontend.label "error", .rejection frontend.label (reason error)]

/-- What reading or translating a document records. -/
def Document.events (config : Config) (text : String) : List Event :=
  let result := parse config text
  (if result.isOk then [Event.inputBytes text.utf8ByteSize] else [])
    ++ Frontend.document.outcome DocumentError.reason result
    ++ [.latency Frontend.document.label]

/-- What translating a predicate records. -/
def Expr.events (scope : Scope) (expr : Expr) : List Event :=
  Frontend.predicate.outcome PredicateError.reason (expr.translate scope)
    ++ [.latency Frontend.predicate.label]

/-- One translation by a front-end. -/
inductive Translation where
  | document (config : Config) (text : String)
  | predicate (scope : Scope) (expr : Expr)

namespace Translation

/-- The front-end that makes the translation. -/
def frontend : Translation → Frontend
  | document .. => .document
  | predicate .. => .predicate

/-- The reason for which the translation fails, if it does. -/
def failure? : Translation → Option String
  | document config text =>
    match Document.parse config text with
    | .ok _ => none
    | .error error => some error.reason
  | predicate scope expr =>
    match expr.translate scope with
    | .ok _ => none
    | .error error => some error.reason

/-- The length in bytes of a document that is accepted. -/
def acceptedBytes? : Translation → Option Nat
  | document config text =>
      if (Document.parse config text).isOk then some text.utf8ByteSize else none
  | predicate .. => none

/-- What the translation records. -/
def events : Translation → List Event
  | document config text => Document.events config text
  | predicate scope expr => expr.events scope

/-- What a translation records, by how it ends. -/
theorem events_eq (translation : Translation) :
    translation.events =
      translation.acceptedBytes?.toList.map .inputBytes ++
        (match translation.failure? with
          | none => [.operation translation.frontend.label "success"]
          | some reason => [.operation translation.frontend.label "error",
              .rejection translation.frontend.label reason]) ++
        [.latency translation.frontend.label] := by
  cases translation with
  | document config text =>
    rw [events, Document.events, failure?, acceptedBytes?, frontend]
    cases Document.parse config text <;> rfl
  | predicate scope expr =>
    rw [events, Expr.events, failure?, acceptedBytes?, frontend]
    cases expr.translate scope <;> rfl

theorem failure?_mem_reasons {translation : Translation} {reason : String}
    (h : translation.failure? = some reason) : reason ∈ translation.frontend.reasons := by
  cases translation with
  | document config text =>
    rw [failure?] at h
    split at h
    · cases h
    · next error _ =>
      obtain rfl := Option.some.inj h
      exact error.reason_mem_reasons
  | predicate scope expr =>
    rw [failure?] at h
    split at h
    · cases h
    · next error _ =>
      obtain rfl := Option.some.inj h
      exact error.reason_mem_reasons

theorem isSome_acceptedBytes? (translation : Translation) :
    translation.acceptedBytes?.isSome ↔
      translation.frontend = .document ∧ translation.failure? = none := by
  cases translation with
  | document config text =>
    rw [acceptedBytes?, failure?, Translation.frontend]
    cases Document.parse config text <;> simp [Except.isOk, Except.toBool]
  | predicate scope expr => simp [acceptedBytes?, Translation.frontend]

end Translation

/-- The translations that a call makes, in order. -/
def Call.translations : Call → List Translation
  | parse config text => [.document config text]
  | translate config text => [.document config text]
  | translatePredicate scope expr => [.predicate scope expr]
  | translatePredicates scope exprs => (Expr.upToFailure scope exprs).map (.predicate scope)
  | emit .. | escape .. | buildBool .. | buildRange .. => []

/-! ## What calls record -/

namespace Frontend

variable {ε α : Type}

theorem run_observe (frontend : Frontend) (reason : ε → String) (outcome : Except ε α)
    (log : List Event) :
    (frontend.observe reason outcome).run log =
      (outcome, log ++ frontend.outcome reason outcome) := by
  cases outcome with
  | ok a => rfl
  | error error =>
    show (Except.error error, log ++ [_] ++ [_]) = _
    rw [List.append_assoc]
    rfl

theorem run_timed {computation : Recorder Event α} {result : α} {log events : List Event}
    (h : computation.run log = (result, log ++ events)) (frontend : Frontend) :
    (frontend.timed computation).run log =
      (result, log ++ (events ++ [.latency frontend.label])) := by
  rw [timed, StateT.run_bind, h, ← List.append_assoc]
  rfl

end Frontend

namespace Document

theorem run_measuredParse (config : Config) (text : String) (log : List Event) :
    (measuredParse config text).run log = (parse config text,
      log ++ if (parse config text).isOk then [.inputBytes text.utf8ByteSize] else []) := by
  rw [measuredParse]
  cases parse config text with
  | ok query => rfl
  | error error => exact congrArg (Prod.mk _) (List.append_nil log).symm

theorem run_recordedParse (config : Config) (text : String) (log : List Event) :
    (recordedParse config text).run log = (parse config text, log ++ events config text) := by
  apply Frontend.run_timed
  rw [StateT.run_bind, run_measuredParse, ← List.append_assoc]
  apply Frontend.run_observe

theorem run_recordedTranslate (config : Config) (text : String) (log : List Event) :
    (recordedTranslate config text).run log =
      (translate config text, log ++ events config text) := by
  rw [recordedTranslate, StateT.run_bind, run_recordedParse]
  rfl

end Document

namespace Expr

theorem run_recordedTranslate (scope : Scope) (expr : Expr) (log : List Event) :
    (expr.recordedTranslate scope).run log =
      (expr.translate scope, log ++ expr.events scope) := by
  apply Frontend.run_timed
  apply Frontend.run_observe

theorem run_recordedTranslateAll (scope : Scope) (exprs : List Expr) (log : List Event) :
    (recordedTranslateAll scope exprs).run log =
      (translateAll scope exprs, log ++ (upToFailure scope exprs).flatMap (events scope)) := by
  rw [recordedTranslateAll, run_joinAll (run_recordedTranslate scope)]
  rfl

end Expr

namespace Call

/-- A call records what its translations do. -/
theorem run_perform (call : Call) (log : List Event) :
    (call.perform.run log).2 = log ++ call.translations.flatMap Translation.events := by
  cases call with
  | parse config text =>
    rw [perform, StateT.run_bind, Document.run_recordedParse, translations, List.flatMap_singleton]
    rfl
  | translate config text =>
    rw [perform, StateT.run_bind, Document.run_recordedTranslate, translations,
      List.flatMap_singleton]
    rfl
  | translatePredicate scope expr =>
    rw [perform, StateT.run_bind, Expr.run_recordedTranslate, translations, List.flatMap_singleton]
    rfl
  | translatePredicates scope exprs =>
    rw [perform, StateT.run_bind, Expr.run_recordedTranslateAll, translations, List.flatMap_map]
    rfl
  | emit | escape | buildBool | buildRange => exact (List.append_nil log).symm

/-- Calls record what their translations do, one after another. -/
theorem run_mapM_perform (calls : List Call) (log : List Event) :
    ((calls.mapM perform).run log).2 =
      log ++ (calls.flatMap translations).flatMap Translation.events := by
  induction calls generalizing log with
  | nil => exact (List.append_nil log).symm
  | cons call calls ih =>
    have hcall : (((call :: calls).mapM perform).run log).2 =
        ((calls.mapM perform).run (call.perform.run log).2).2 := by
      rw [List.mapM_cons]
      rfl
    rw [hcall, ih, run_perform, List.flatMap_cons, List.flatMap_append, List.append_assoc]

theorem recordedBy_eq (calls : List Call) :
    recordedBy calls = (calls.flatMap translations).flatMap Translation.events := by
  rw [recordedBy, run_mapM_perform, List.nil_append]

end Call

end SearchQuery
