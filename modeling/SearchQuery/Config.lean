import SearchQuery.Json.Form

/-!
# Configuration

The limits that documents are held to, and the number of edits that is written for a fuzzy clause
without one.
-/

namespace SearchQuery

/-- The number of edits of a fuzzy clause that names none. -/
def standardFuzziness : UInt32 :=
  2

/-- Limits and defaults. -/
structure Config where
  /-- The greatest length of a document, in bytes of UTF-8. -/
  maxInputBytes : Nat := 100 * 1024
  /-- The greatest depth of a query. -/
  maxNestingDepth : Nat := 5
  /-- The number of edits that is written for a fuzzy clause without one. -/
  defaultFuzziness : UInt32 := standardFuzziness
deriving DecidableEq, Repr, Inhabited

namespace Config

open Json

/-- A size: a whole number below `2 ^ 64`. -/
def size? (n : Int) : Option Nat :=
  if 0 ≤ n ∧ n < Nat.pow 2 64 then some n.toNat else none

/-- The record of a configuration: a field that is left out has its standard value. -/
def recordForm : RecordForm Config Config where
  fields :=
    [.of "max_input_bytes" (fun _ => wholeForm size?) fun config maxInputBytes =>
        { config with maxInputBytes },
      .of "max_nesting_depth" (fun _ => wholeForm size?) fun config maxNestingDepth =>
        { config with maxNestingDepth },
      .of "default_fuzziness" (fun _ => wholeForm Number.uint32?) fun config defaultFuzziness =>
        { config with defaultFuzziness }]
  empty := {}
  finish := some
  mayEndEarly := true

/-- Reads a configuration. -/
def read (text : List Char) : Except Fault Config :=
  readForm (fun steps => recordForm.read steps) text

end Config

end SearchQuery
