import Mathlib.Algebra.BigOperators.Group.List.Basic
import Mathlib.Algebra.Ring.Nat
import SearchQuery.Proofs.CallTranslations
import SearchQuery.Proofs.QueryDocuments

/-!
# What the metrics add up to

The metrics tell what calls were made, whatever their order was and however they ended.

* `Conserves` says how the metrics agree with each other and with the translations that were made.
  It holds of a single translation (`Conserves.single`) and is kept when more is recorded
  (`Conserves.append`), so it holds after any calls.
* `recordedBy_conserves` is the result, with the sizes that are kept and with what translating
  predicates together adds.
-/

namespace SearchQuery

/-! ## Metrics -/

namespace Metric

/-- The translations of a front-end that ended with the status. -/
def operations (frontend : Frontend) (status : String) : Metric :=
  (Event.operation frontend.label status).metric

/-- The inputs that a front-end refused for the reason. -/
def rejections (frontend : Frontend) (reason : String) : Metric :=
  (Event.rejection frontend.label reason).metric

/-- The times that the translations of a front-end took. -/
def latencies (frontend : Frontend) : Metric :=
  (Event.latency frontend.label).metric

end Metric

/-- The number of times that a metric was recorded. -/
def Reading.total : Reading → Nat
  | count n => n
  | samples values => values.length

namespace Event

/-- The number of times that a metric was recorded, as the metric tells it. -/
def total (events : List Event) (metric : Metric) : Nat :=
  (reading events metric).total

theorem length_sizes (events : List Event) :
    (sizes events).length = events.countP (·.metric = .inputBytes) := by
  induction events with
  | nil => rfl
  | cons event events ih =>
    cases event <;> simp_all [sizes, metric, Metric.inputBytes]

theorem total_eq_countP (events : List Event) (metric : Metric) :
    total events metric = events.countP (·.metric = metric) := by
  rw [total, reading]
  split
  · next h => rw [h, ← length_sizes, Reading.total, List.length_map]
  · rfl

@[simp] theorem total_nil (metric : Metric) : total [] metric = 0 := by
  rw [total_eq_countP, List.countP_nil]

@[simp] theorem total_cons (event : Event) (events : List Event) (metric : Metric) :
    total (event :: events) metric =
      total events metric + if event.metric = metric then 1 else 0 := by
  simp only [total_eq_countP, List.countP_cons, decide_eq_true_eq]

@[simp] theorem total_append (events more : List Event) (metric : Metric) :
    total (events ++ more) metric = total events metric + total more metric := by
  simp only [total_eq_countP, List.countP_append]

@[simp] theorem sizes_append (events more : List Event) :
    sizes (events ++ more) = sizes events ++ sizes more :=
  List.filterMap_append

end Event

/-! ## How the metrics agree -/

namespace Frontend

@[simp] theorem label_inj {frontend other : Frontend} :
    frontend.label = other.label ↔ frontend = other := by
  cases frontend <;> cases other <;> decide

theorem nodup_reasons (frontend : Frontend) : frontend.reasons.Nodup := by
  cases frontend <;> decide

end Frontend

namespace Translation

variable (translation : Translation) (frontend : Frontend)

theorem total_latencies :
    Event.total translation.events (.latencies frontend) =
      if translation.frontend = frontend then 1 else 0 := by
  rw [events_eq]
  cases translation.failure? <;> cases translation.acceptedBytes? <;>
    simp [Event.metric, Metric.inputBytes, Metric.latencies]

theorem total_operations_success :
    Event.total translation.events (.operations frontend "success") =
      if translation.frontend = frontend ∧ translation.failure? = none then 1 else 0 := by
  rw [events_eq]
  cases translation.failure? <;> cases translation.acceptedBytes? <;>
    simp [Event.metric, Metric.inputBytes, Metric.operations]

theorem total_operations_error :
    Event.total translation.events (.operations frontend "error") =
      if translation.frontend = frontend ∧ translation.failure?.isSome then 1 else 0 := by
  rw [events_eq]
  cases translation.failure? <;> cases translation.acceptedBytes? <;>
    simp [Event.metric, Metric.inputBytes, Metric.operations]

theorem total_rejections (reason : String) :
    Event.total translation.events (.rejections frontend reason) =
      if translation.frontend = frontend ∧ translation.failure? = some reason then 1 else 0 := by
  rw [events_eq]
  cases translation.failure? <;> cases translation.acceptedBytes? <;>
    simp [Event.metric, Metric.inputBytes, Metric.rejections]

theorem sizes_events : Event.sizes translation.events = translation.acceptedBytes?.toList := by
  rw [events_eq]
  cases translation.failure? <;> cases translation.acceptedBytes? <;> rfl

end Translation

/-- The number of translations that a front-end finished. -/
def Event.finished (events : List Event) (frontend : Frontend) : Nat :=
  total events (.operations frontend "success") + total events (.operations frontend "error")

/-- How the metrics of a log agree with each other, and with the translations that were made. -/
structure Conserves (translations : List Translation) (log : List Event) : Prop where
  /-- A time is taken of each translation that ended, well or not. -/
  timed (frontend : Frontend) :
    Event.total log (.latencies frontend) = Event.finished log frontend
  /-- A time is taken of each translation that was made. -/
  made (frontend : Frontend) :
    Event.total log (.latencies frontend) = translations.countP (·.frontend = frontend)
  /-- A translation that failed is refused for one reason. -/
  refused (frontend : Frontend) :
    (frontend.reasons.map fun reason => Event.total log (.rejections frontend reason)).sum =
      Event.total log (.operations frontend "error")
  /-- No other reason is counted. -/
  unknown (frontend : Frontend) (reason : String) (h : reason ∉ frontend.reasons) :
    Event.total log (.rejections frontend reason) = 0
  /-- A reason is counted for each translation that failed for it. -/
  failed (frontend : Frontend) (reason : String) :
    Event.total log (.rejections frontend reason) = translations.countP fun translation =>
      translation.frontend = frontend ∧ translation.failure? = some reason
  /-- The sizes are those of the documents that were accepted. -/
  sizes : Event.sizes log = translations.filterMap (·.acceptedBytes?)
  /-- There are as many sizes as documents that were read. -/
  accepted : Event.total log .inputBytes = Event.total log (.operations .document "success")

namespace Conserves

theorem nil : Conserves [] [] where
  timed _ := rfl
  made _ := rfl
  refused frontend := by cases frontend <;> rfl
  unknown _ _ _ := Event.total_nil _
  failed _ _ := Event.total_nil _
  sizes := rfl
  accepted := rfl

theorem append {before after : List Translation} {log more : List Event}
    (h : Conserves before log) (hmore : Conserves after more) :
    Conserves (before ++ after) (log ++ more) where
  timed frontend := by
    have hbefore := h.timed frontend
    have hafter := hmore.timed frontend
    simp only [Event.finished, Event.total_append] at *
    omega
  made frontend := by
    rw [Event.total_append, List.countP_append, h.made, hmore.made]
  refused frontend := by
    simp only [Event.total_append, List.sum_map_add, h.refused, hmore.refused]
  unknown frontend reason hreason := by
    rw [Event.total_append, h.unknown frontend reason hreason,
      hmore.unknown frontend reason hreason]
  failed frontend reason := by
    rw [Event.total_append, List.countP_append, h.failed, hmore.failed]
  sizes := by
    rw [Event.sizes_append, List.filterMap_append, h.sizes, hmore.sizes]
  accepted := by
    rw [Event.total_append, Event.total_append, h.accepted, hmore.accepted]

theorem single (translation : Translation) : Conserves [translation] translation.events where
  timed frontend := by
    rw [Event.finished, translation.total_latencies, translation.total_operations_success,
      translation.total_operations_error]
    cases translation.failure? <;> simp
  made frontend := by
    rw [translation.total_latencies, List.countP_singleton]
    simp
  refused frontend := by
    simp only [translation.total_rejections, translation.total_operations_error]
    cases hfailure : translation.failure? with
    | none => simp
    | some reason =>
      have hmem := Translation.failure?_mem_reasons hfailure
      -- Of all reasons only this one is counted, and it is listed once.
      rw [List.sum_map_eq_nsmul_single reason]
      · by_cases hfrontend : translation.frontend = frontend
        · subst hfrontend
          simp [translation.frontend.nodup_reasons.count, hmem]
        · simp [hfrontend]
      · intro other hother _
        simp [hother.symm]
  unknown frontend reason hreason := by
    rw [translation.total_rejections, if_neg]
    rintro ⟨rfl, hfailure⟩
    exact hreason (Translation.failure?_mem_reasons hfailure)
  failed frontend reason := by
    rw [translation.total_rejections, List.countP_singleton]
    simp
  sizes := by
    rw [translation.sizes_events]
    cases h : translation.acceptedBytes? <;> simp [h]
  accepted := by
    rw [Event.total_eq_countP, ← Event.length_sizes, translation.sizes_events,
      translation.total_operations_success]
    simp only [← translation.isSome_acceptedBytes?]
    cases translation.acceptedBytes? <;> rfl

/-- The metrics agree with any translations, one after another. -/
theorem flatMap_events (translations : List Translation) :
    Conserves translations (translations.flatMap Translation.events) := by
  induction translations with
  | nil => exact nil
  | cons translation translations ih =>
    rw [List.flatMap_cons]
    exact (single translation).append ih

end Conserves

/-! ## Any calls -/

namespace Expr

theorem length_upToFailure (scope : Scope) (exprs : List Expr) :
    (upToFailure scope exprs).length =
      (exprs.findIdx? fun expr => !(expr.translate scope).isOk).elim exprs.length (· + 1) := by
  rw [upToFailure, List.length_take]
  cases h : exprs.findIdx? fun expr => !(expr.translate scope).isOk with
  | none =>
    rw [List.findIdx?_eq_none_iff_findIdx_eq] at h
    rw [Option.elim, h]
    omega
  | some index =>
    obtain ⟨hlt, heq⟩ := List.findIdx?_eq_some_iff_findIdx_eq.mp h
    rw [Option.elim, heq]
    omega

end Expr

namespace Call

/-- The lengths in bytes of the documents that are accepted, in order. -/
def acceptedBytes (calls : List Call) : List Nat :=
  (calls.flatMap translations).filterMap (·.acceptedBytes?)

theorem conserves_recordedBy (calls : List Call) :
    Conserves (calls.flatMap translations) (recordedBy calls) := by
  rw [recordedBy_eq]
  exact .flatMap_events _

theorem finished_recordedBy (calls : List Call) (frontend : Frontend) :
    Event.finished (recordedBy calls) frontend =
      (calls.flatMap translations).countP (·.frontend = frontend) := by
  have h := conserves_recordedBy calls
  rw [← h.timed, h.made]

/-- Whatever calls are made, the metrics agree with each other and with the translations that were
made.  The sizes that are kept are the lengths of the accepted documents, exactly so if no length
is too large for a float.  Predicates that are translated together count as many times as there
are predicates up to the first that fails. -/
theorem recordedBy_conserves (calls : List Call) :
    Conserves (calls.flatMap translations) (recordedBy calls) ∧
      Event.reading (recordedBy calls) .inputBytes =
        .samples ((acceptedBytes calls).map Number.nearestFloat) ∧
      ((∀ bytes ∈ acceptedBytes calls, bytes ≤ Nat.pow 2 53) →
        Event.reading (recordedBy calls) .inputBytes = .samples (acceptedBytes calls)) ∧
      ∀ scope exprs,
        Event.finished (recordedBy (calls ++ [.translatePredicates scope exprs])) .predicate =
          Event.finished (recordedBy calls) .predicate +
            (exprs.findIdx? fun expr => !(expr.translate scope).isOk).elim
              exprs.length (· + 1) := by
  have h := conserves_recordedBy calls
  have hreading : Event.reading (recordedBy calls) .inputBytes =
      .samples ((acceptedBytes calls).map Number.nearestFloat) := by
    rw [Event.reading, if_pos rfl, h.sizes, acceptedBytes]
  refine ⟨h, hreading, fun hbytes => ?_, fun scope exprs => ?_⟩
  · have hexact : ∀ bytes ∈ acceptedBytes calls, Number.nearestFloat bytes = bytes :=
      fun bytes hmem => Number.nearestFloat_of_le (hbytes bytes hmem)
    rw [hreading, List.map_congr_left hexact, List.map_id']
  · have hpredicate : ((Expr.upToFailure scope exprs).map (Translation.predicate scope)).countP
        (·.frontend = .predicate) = (Expr.upToFailure scope exprs).length := by
      rw [List.countP_map, List.countP_eq_length]
      intro expr _
      rfl
    rw [finished_recordedBy, finished_recordedBy, List.flatMap_append, List.countP_append,
      List.flatMap_singleton, translations, hpredicate, Expr.length_upToFailure]

/-- A document with a field that must exist. -/
def sampleDocument : Json.Value :=
  .tagged "exists" (.tagged "field" (.string "a"))

/-- Of a document that is refused no length is kept. -/
theorem reading_recordedBy_sampleDocument :
    (∀ bytes ∈ acceptedBytes [.parse {} "", .translate {} sampleDocument.compact],
      bytes ≤ Nat.pow 2 53) ∧
    Event.reading (recordedBy [.parse {} "", .translate {} sampleDocument.compact]) .inputBytes =
      .samples [24] := by
  have hfits : sampleDocument.Fits Json.maxNesting :=
    .tagged (.tagged (.string "a") "field") "exists"
  have hparse : Document.parse {} sampleDocument.compact = .ok (.existing "a") := by
    rw [Document.parse_compact hfits (by decide)]
    rfl
  have haccepted : acceptedBytes [.parse {} "", .translate {} sampleDocument.compact] = [24] := by
    have hsize : sampleDocument.compact.utf8ByteSize = 24 := by decide
    have hsome : (Translation.document {} sampleDocument.compact).acceptedBytes? = some 24 := by
      rw [Translation.acceptedBytes?, hparse, hsize]
      rfl
    have hnone : (Translation.document {} "").acceptedBytes? = none := rfl
    simp [acceptedBytes, translations, hsome, hnone]
  have hbytes : ∀ bytes ∈ acceptedBytes [.parse {} "", .translate {} sampleDocument.compact],
      bytes ≤ Nat.pow 2 53 := by
    rw [haccepted]
    decide
  refine ⟨hbytes, ?_⟩
  rw [(recordedBy_conserves _).2.2.1 hbytes, haccepted]

end Call

end SearchQuery
