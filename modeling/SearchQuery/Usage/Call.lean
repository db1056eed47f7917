import SearchQuery.Predicate.Translation
import SearchQuery.Query.Document
import SearchQuery.Usage

/-!
# Calls with a recorder

The calls of the library as they record their use: each event is recorded where it arises, and what
a call answers is passed on.  The time of a translation is taken last, whatever its outcome; the
length of a document is recorded once nothing can refuse it any more; and of some predicates that
are translated together each is a translation of its own, up to the first that fails.
-/

namespace SearchQuery

/-- A computation that notes things in order. -/
abbrev Recorder (ω : Type) := StateM (List ω)

/-- Notes something behind all that was noted before. -/
def Recorder.note {ω : Type} (entry : ω) : Recorder ω Unit :=
  modify (· ++ [entry])

open Recorder

/-! ## Front-ends -/

namespace Frontend

variable {ε α : Type}

/-- Records whether a translation succeeded, and passes its outcome on. -/
def observe (frontend : Frontend) (reason : ε → String) (outcome : Except ε α) :
    Recorder Event (Except ε α) := do
  match outcome with
  | .ok _ => note (.operation frontend.label "success")
  | .error error =>
      note (.operation frontend.label "error")
      note (.rejection frontend.label (reason error))
  return outcome

/-- Takes the time of a computation when it is finished. -/
def timed (frontend : Frontend) (computation : Recorder Event α) : Recorder Event α := do
  let result ← computation
  note (.latency frontend.label)
  return result

end Frontend

/-! ## Documents -/

namespace Document

/-- Reads a document, and records its length if it is accepted. -/
def measuredParse (config : Config) (text : String) :
    Recorder Event (Except DocumentError Query) := do
  match parse config text with
  | .ok query =>
      note (.inputBytes text.utf8ByteSize)
      return .ok query
  | .error error => return .error error

/-- Reads a document. -/
def recordedParse (config : Config) (text : String) :
    Recorder Event (Except DocumentError Query) :=
  Frontend.document.timed do
    Frontend.document.observe DocumentError.reason (← measuredParse config text)

/-- Translates a document.  The emission records nothing. -/
def recordedTranslate (config : Config) (text : String) :
    Recorder Event (Except DocumentError String) := do
  return (← recordedParse config text).map (Query.emitWith config.defaultFuzziness)

end Document

/-! ## Predicates -/

namespace Expr

/-- Translates a predicate. -/
def recordedTranslate (scope : Scope) (expr : Expr) :
    Recorder Event (Except PredicateError String) :=
  Frontend.predicate.timed (Frontend.predicate.observe PredicateError.reason (expr.translate scope))

/-- Translates predicates in turn, up to the first that fails.  `joined` is the query string of
those before; each further one is joined to it. -/
def joinAll {m : Type → Type} [Monad m] (translate : Expr → m (Except PredicateError String))
    (joined : Option (List Char)) : List Expr → m (Except PredicateError String)
  | [] => return .ok (String.ofList (joined.getD matchAll))
  | expr :: rest => do
      match ← translate expr with
      | .ok text =>
          joinAll translate (some (joined.elim text.toList (conjunction · text.toList))) rest
      | .error error => return .error error

/-- Translates some predicates that must all hold. -/
def recordedTranslateAll (scope : Scope) (exprs : List Expr) :
    Recorder Event (Except PredicateError String) :=
  joinAll (recordedTranslate scope) none exprs

end Expr

/-! ## Calls -/

/-- What a call answers. -/
inductive Answer where
  | parsed (outcome : Except DocumentError Query)
  | translated (outcome : Except DocumentError String)
  | predicate (outcome : Except PredicateError String)
  | text (value : String)
  | built (query : Query)

/-- A call of the library. -/
inductive Call where
  | parse (config : Config) (text : String)
  | translate (config : Config) (text : String)
  | translatePredicate (scope : Scope) (expr : Expr)
  | translatePredicates (scope : Scope) (exprs : List Expr)
  | emit (fuzziness : UInt32) (query : Query)
  | escape (value : String)
  | buildBool (clauses : List (Occurrence × Query)) (minimumShouldMatch : Option Int32)
  | buildRange (field : String) (bounds : List (Bound × String))

namespace Call

/-- Makes a call.  Emitting, escaping and building record nothing. -/
def perform : Call → Recorder Event Answer
  | parse config text => do return .parsed (← Document.recordedParse config text)
  | translate config text => do return .translated (← Document.recordedTranslate config text)
  | translatePredicate scope expr => do return .predicate (← expr.recordedTranslate scope)
  | translatePredicates scope exprs => do
      return .predicate (← Expr.recordedTranslateAll scope exprs)
  | emit fuzziness query => return .text (query.emitWith fuzziness)
  | escape value => return .text (String.ofList (Text.escape value.toList))
  | buildBool clauses minimumShouldMatch =>
      return .built (clauses.foldl (fun done clause => done.add clause.1 clause.2)
        { minimumShouldMatch : BoolClauses }).build
  | buildRange field bounds => return .built (.range (Range.ofBounds field bounds))

/-- What a recorder that was empty holds after some calls. -/
def recordedBy (calls : List Call) : List Event :=
  ((calls.mapM perform).run []).2

end Call

end SearchQuery
