import SearchQuery.Json.Document
import SearchQuery.Number.Binary64

/-!
# Reading a value of a given form

Readers that expect a value of one form: a string, a number of some range, a list, a record with
named fields, a choice between tagged alternatives.  They read from left to right and stop at the
first problem, be it one of grammar or of form.  Where a value of another kind stands, a word, a
number or a string is read to its end first, so a problem of grammar in it comes before the
mismatch; a bracket is a mismatch at once.

Brackets nest at most as deep as the level that a reader is given; what is skipped may nest
deeper.
-/

namespace SearchQuery.Json

/-- The fault of a value that has another form than expected. -/
def mismatch : Fault :=
  .ending .mismatch

/-- The fault of a value that begins with `c` and has another form than expected. -/
def otherForm (c : Char) (rest : List Char) : Fault :=
  let scanned : Except Fault Unit :=
    if c = '[' ∨ c = '{' then .ok ()
    else (valueLevel .value 0 none (c :: rest)).map fun _ => ()
  match scanned with
  | .ok _ => mismatch
  | .error fault => fault

/-- Finds the first character of a value. -/
def onValue (read : Char → Reader α) : Reader α := fun text =>
  match skipSpaces text with
  | [] => .error (.ending .endInValue)
  | c :: rest => read c rest

/-- Takes the opening bracket `bracket` and gives what follows to the reader of the level below;
where no level is left the bracket is nested too deep. -/
def descend (read : Nat → Reader α) (level : Nat) : Reader α := fun rest =>
  match level with
  | 0 => .error (.before .tooDeep rest)
  | level + 1 => read level rest

/-- Skips a value, whatever its form and however deep its brackets nest. -/
def skipValue (steps : Nat) : Reader Unit := fun text => do
  let (_, rest) ← value .skip steps steps text
  return ((), rest)

/-! ## Scalars -/

/-- Takes a string. -/
def stringForm : Reader String :=
  onValue fun c rest =>
    if c = '"' then afterQuote .value rest else .error (otherForm c rest)

/-- Takes `true` or `false`. -/
def boolForm : Reader Bool :=
  onValue fun c rest =>
    if c = 't' then do
      let (_, rest) ← letters ['r', 'u', 'e'] rest
      return (true, rest)
    else if c = 'f' then do
      let (_, rest) ← letters ['a', 'l', 's', 'e'] rest
      return (false, rest)
    else .error (otherForm c rest)

/-- Takes `null`. -/
def nullForm : Reader Unit :=
  onValue fun c rest =>
    if c = 'n' then letters ['u', 'l', 'l'] rest else .error (otherForm c rest)

/-- Takes `null` for absence, or else what `reader` takes. -/
def optionForm (reader : Reader α) : Reader (Option α) :=
  onValue fun c rest =>
    if c = 'n' then do
      let (_, rest) ← letters ['u', 'l', 'l'] rest
      return (none, rest)
    else do
      let (found, rest) ← reader (c :: rest)
      return (some found, rest)

/-! ## Numbers

A whole number is exact as long as it fits 64 bits.  Any other number is a float, computed from
the digits that fit 64 bits and one power of ten, with an error in the last place where two
roundings happen to add up. -/

/-- What a number is read as. -/
inductive Magnitude where
  | whole (n : Int)
  | float (x : Float)

/-- Continues a number below `2 ^ 64` with as many digits as keep it there, and tells how many
they were. -/
def accumulate (n taken : Nat) : List Char → Nat × Nat
  | [] => (n, taken)
  | c :: rest =>
    let next := 10 * n + Number.digitValue c
    if next < Nat.pow 2 64 then accumulate next (taken + 1) rest else (n, taken)

/-- Ten to a power of at most 308, as a float. -/
def powerOfTen (e : Nat) : Float :=
  Float.ofScientific 1 false e

/-- A float divided by ten to the power `e`, in steps of at most 308. -/
def divideByPower (x : Float) (e : Nat) : Float :=
  if e ≤ 308 then x / powerOfTen e
  else if x == 0 then x
  else divideByPower (x / powerOfTen 308) (e - 308)
termination_by e
decreasing_by omega

/-- A float times ten to a power, if that is finite. -/
def scaleByPower (x : Float) : Int → Option Float
  | .ofNat e =>
      if e ≤ 308 then
        let y := x * powerOfTen e
        if y.isInf then none else some y
      else if x == 0 then some x
      else none
  | .negSucc e => some (divideByPower x (e + 1))

/-- The value of an exponent part, beyond the range of 32 bits without its exact amount. -/
def exponentValue (exponent : Option (Bool × List Char)) : Int :=
  match exponent with
  | none => 0
  | some (negative, digits) =>
      let n := min (Number.digitsValue 0 digits) (Nat.pow 2 31)
      if negative then -n else n

/-- The value of a number, unless it is beyond the range of floats. -/
def Numeral.magnitude? (n : Numeral) : Option Magnitude :=
  let (whole, wholeTaken) := accumulate 0 0 n.whole
  let fits := wholeTaken = n.whole.length
  if fits ∧ n.fraction = [] ∧ n.exponent = none ∧
      (!n.negative || (0 < whole ∧ whole ≤ Nat.pow 2 63)) then
    some (.whole (if n.negative then -whole else whole))
  else
    let (digits, fractionTaken) := accumulate whole 0 n.fraction
    let dropped : Int := n.whole.length - wholeTaken
    let scaled := scaleByPower (Float.ofNat digits)
      (dropped - fractionTaken + exponentValue n.exponent)
    scaled.map fun x => .float (if n.negative then -x else x)

/-- Takes a number. -/
def numberForm : Reader Magnitude :=
  onValue fun c rest =>
    if startsNumber c then do
      let (number, rest) ← numeral .value (c :: rest)
      match number.magnitude? with
      | some magnitude => return (magnitude, rest)
      | none => .error (.before .numberOutOfRange rest)
    else .error (otherForm c rest)

/-- Takes a whole number that `narrow?` accepts. -/
def wholeForm (narrow? : Int → Option α) : Reader α := fun text => do
  match ← numberForm text with
  | (.whole n, rest) =>
      match narrow? n with
      | some found => return (found, rest)
      | none => .error mismatch
  | (.float _, _) => .error mismatch

/-- Takes any number as a float. -/
def floatForm : Reader Number.Binary64 := fun text => do
  match ← numberForm text with
  | (.whole n, rest) => return (.ofFloat (Float.ofInt n), rest)
  | (.float x, rest) => return (.ofFloat x, rest)

/-! ## Lists, maps, records and choices -/

/-- Takes a list. -/
def listForm (steps : Nat) (item : Nat → Reader α) (level : Nat) : Reader (List α) :=
  onValue fun c rest =>
    if c = '[' then descend (fun level => items (item level) true [] steps) level rest
    else .error (otherForm c rest)

/-- Takes an object with any keys; `insert` adds a member to what was made of those before. -/
def mapForm (steps : Nat) (entry : Nat → Reader α) (insert : σ → String → α → σ) (empty : σ)
    (level : Nat) : Reader σ :=
  onValue fun c rest =>
    if c = '{' then
      descend (fun level => members .value (fun state key text => do
        let (found, rest) ← entry level (← colon text)
        return (insert state key found, rest)) true empty steps) level rest
    else .error (otherForm c rest)

/-- A field of a record: its name, and the reader that adds its value to the record. -/
structure RecordField (σ : Type) where
  name : String
  read : (level : Nat) → σ → Reader σ

/-- A field that is kept as `set` says. -/
def RecordField.of (name : String) (reader : (level : Nat) → Reader α) (set : σ → α → σ) :
    RecordField σ where
  name := name
  read level state text := do
    let (found, rest) ← reader level text
    return (set state found, rest)

/-- A record: its fields in order, the record without any of them, and the value of a record
with the fields it has, if they suffice.  A record written as a list may end early only if
`mayEndEarly` holds. -/
structure RecordForm (σ α : Type) where
  fields : List (RecordField σ)
  empty : σ
  finish : σ → Option α
  mayEndEarly : Bool := false

/-- Takes a member of a record: an unknown one is skipped, a known one must not be repeated. -/
def RecordForm.member (steps level : Nat) (form : RecordForm σ α) (state : List String × σ)
    (key : String) : Reader (List String × σ) := fun text =>
  match form.fields.find? (·.name = key) with
  | some field =>
      if key ∈ state.1 then .error mismatch
      else do
        let (record, rest) ← field.read level state.2 (← colon text)
        return ((key :: state.1, record), rest)
  | none => do
      let (_, rest) ← skipValue steps (← colon text)
      return (state, rest)

/-- Takes the fields of a record in order, up to the closing bracket of a list. -/
def inOrder (level : Nat) (mayEndEarly : Bool) :
    List (RecordField σ) → (first : Bool) → σ → Reader σ
  | [], _, state, text =>
    match skipSpaces text with
    | [] => .error (.ending .endInList)
    | c :: rest =>
      if c = ']' then .ok (state, rest)
      else .error (.within .endInList .trailingCharacters (c :: rest))
  | field :: fields, first, state, text =>
    match nextItem first text with
    | .error fault => .error fault
    | .ok (.closed rest) => if mayEndEarly then .ok (state, rest) else .error mismatch
    | .ok (.entry text) =>
      match field.read level state text with
      | .error fault => .error fault
      | .ok (state, rest) => inOrder level mayEndEarly fields false state rest

/-- Takes a record, written as an object or as the list of its fields. -/
def RecordForm.read (steps : Nat) (form : RecordForm σ α) (level : Nat) : Reader α :=
  onValue fun c rest =>
    if c = '{' ∨ c = '[' then do
      let (state, rest) ← descend (fun level rest => do
        if c = '{' then
          let ((_, state), rest) ←
            members .value (form.member steps level) true ([], form.empty) steps rest
          return (state, rest)
        else inOrder level form.mayEndEarly form.fields true form.empty rest) level rest
      match form.finish state with
      | some found => return (found, rest)
      | none => .error mismatch
    else .error (otherForm c rest)

/-- An alternative of a choice: a bare tag, or a tag with a body. -/
inductive Alternative (α : Type) where
  | bare (value : α)
  | tagged (body : (level : Nat) → Reader α)

/-- Takes the closing bracket of an object with one member. -/
def closeTagged (text : List Char) : Except Fault (List Char) :=
  match skipSpaces text with
  | [] => .error (.ending .endInObject)
  | c :: rest =>
    if c = '}' then .ok rest
    else .error (.within .endInObject .expectedValue (c :: rest))

/-- Takes the tag, the colon, the body and the closing bracket of an object with one member. -/
def taggedForm (alternative? : String → Option (Alternative α)) (level : Nat) : Reader α :=
  fun text => do
    let (tag, rest) ← afterQuote .value (← keyQuote (skipSpaces text))
    match alternative? tag with
    | none => .error mismatch
    | some (.bare value) =>
        let (_, rest) ← nullForm (← colon rest)
        return (value, ← closeTagged rest)
    | some (.tagged body) =>
        let (value, rest) ← body level (← colon rest)
        return (value, ← closeTagged rest)

/-- Takes one of several alternatives: a bare tag as a string, or an object with one member,
whose key is the tag and whose value is the body, `null` for a bare tag. -/
def choiceForm (alternative? : String → Option (Alternative α)) (level : Nat) : Reader α :=
  onValue fun c rest =>
    if c = '{' then descend (taggedForm alternative?) level rest
    else if c = '"' then do
      let (tag, rest) ← afterQuote .value rest
      match alternative? tag with
      | some (.bare value) => return (value, rest)
      | _ => .error mismatch
    else .error (.within .endInValue .expectedValue (c :: rest))

/-- Reads a text that has the form of a reader. -/
def readForm (reader : (steps level : Nat) → Reader α) (text : List Char) : Except Fault α :=
  readAll (reader text.length maxNesting) text

end SearchQuery.Json
