import SearchQuery.Number.Binary64

/-!
# Usage metrics

What is recorded about the use of the library: how many inputs each front-end translated and how
many it refused for which reason, how long each took, and how long the accepted documents were.
A recorder is the list of the events so far, and the state of a metric is read off that list.  Of a
time only the fact that it was taken is kept.
-/

namespace SearchQuery

/-- Something that is recorded. -/
inductive Event where
  /-- A translation was finished. -/
  | operation (frontend status : String)
  /-- An input was refused. -/
  | rejection (frontend reason : String)
  /-- The time of a translation was taken. -/
  | latency (frontend : String)
  /-- A document of this many bytes was accepted. -/
  | inputBytes (bytes : Nat)
deriving DecidableEq, Repr

/-- A metric: its name and its labels in alphabetical order. -/
structure Metric where
  name : String
  labels : List (String × String)
deriving DecidableEq, Repr

/-- The state of a metric: how often it was recorded, or all its samples. -/
inductive Reading where
  | count (n : Nat)
  | samples (values : List Nat)
deriving DecidableEq, Repr

/-- The sizes of the accepted documents, the one metric that keeps its samples. -/
def Metric.inputBytes : Metric :=
  ⟨"lucene_translate_input_bytes", []⟩

namespace Event

/-- The metric that an event belongs to. -/
def metric : Event → Metric
  | operation frontend status =>
      ⟨"lucene_translate_operations_total", [("frontend", frontend), ("status", status)]⟩
  | rejection frontend reason =>
      ⟨"lucene_translate_rejections_total", [("frontend", frontend), ("reason", reason)]⟩
  | latency frontend => ⟨"lucene_translate_operation_seconds", [("frontend", frontend)]⟩
  | inputBytes _ => .inputBytes

/-- The sizes of the accepted documents, in the order of the events. -/
def sizes (events : List Event) : List Nat :=
  events.filterMap fun
    | inputBytes bytes => some bytes
    | _ => none

/-- The state of a metric after some events.  A sample is kept as a float. -/
def reading (events : List Event) (metric : Metric) : Reading :=
  if metric = .inputBytes then .samples ((sizes events).map Number.nearestFloat)
  else .count (events.countP (·.metric = metric))

/-- The metrics that were recorded, each with its state. -/
def readings (events : List Event) : List (Metric × Reading) :=
  (events.map metric).eraseDups.map fun metric => (metric, reading events metric)

end Event

/-! ## Front-ends -/

/-- The ways into the library. -/
inductive Frontend where
  | document
  | predicate
deriving DecidableEq, Repr

/-- The label of a front-end. -/
def Frontend.label : Frontend → String
  | document => "dsl"
  | predicate => "predicate"

end SearchQuery
