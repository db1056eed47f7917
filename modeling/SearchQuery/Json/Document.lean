import SearchQuery.Json.Token
import SearchQuery.Json.Value

/-!
# JSON documents

Reading a value from a text.  Brackets nest at most `maxNesting` deep: a reader is built level by
level, and the brackets of a value are read by the reader of the level below.  Loops over items
and members are given a number of steps that no text of that length can use up, since every step
takes at least one character.

No key is special.  A decoder that keeps the text of its numbers may hold them as objects with the
one key `$serde_json::private::Number`, and then it takes an object of a document whose first key is
this one for a number, or refuses it.  Here such an object is read as any other.
-/

namespace SearchQuery.Json

/-- How deep brackets may nest. -/
def maxNesting : Nat :=
  127

/-- What stands where an item or a member may begin: the closing bracket, which is taken, or the
entry itself. -/
inductive Step where
  | closed (rest : List Char)
  | entry (text : List Char)

/-- Looks for the next item of a list.  Before every item but the first a comma is taken. -/
def nextItem (first : Bool) (text : List Char) : Except Fault Step :=
  match skipSpaces text with
  | [] => .error (.ending .endInList)
  | c :: rest =>
    if c = ']' then .ok (.closed rest)
    else if first then .ok (.entry (c :: rest))
    else if c = ',' then
      match skipSpaces rest with
      | [] => .error (.ending .endInValue)
      | d :: rest =>
        if d = ']' then .error (.within .endInValue .trailingComma (d :: rest))
        else .ok (.entry (d :: rest))
    else .error (.within .endInList .expectedCommaOrBracket (c :: rest))

/-- Takes the opening quote of a key. -/
def keyQuote : List Char → Except Fault (List Char)
  | [] => .error (.ending .endInValue)
  | c :: rest =>
    if c = '"' then .ok rest
    else .error (.within .endInValue .keyNotString (c :: rest))

/-- Looks for the next member of an object and takes the opening quote of its key.  Before every
member but the first a comma is taken. -/
def nextMember (first : Bool) (text : List Char) : Except Fault Step :=
  match skipSpaces text with
  | [] => .error (.ending .endInObject)
  | c :: rest =>
    if c = '}' then .ok (.closed rest)
    else if first then (keyQuote (c :: rest)).map .entry
    else if c = ',' then
      match skipSpaces rest with
      | '}' :: rest => .error (.within .endInValue .trailingComma ('}' :: rest))
      | rest => (keyQuote rest).map .entry
    else .error (.within .endInObject .expectedCommaOrBrace (c :: rest))

/-- Takes the colon after a key. -/
def colon (text : List Char) : Except Fault (List Char) :=
  match skipSpaces text with
  | [] => .error (.ending .endInObject)
  | c :: rest =>
    if c = ':' then .ok rest
    else .error (.within .endInObject .expectedColon (c :: rest))

/-- Takes the items of a list and its closing bracket; `done` holds the items read so far, last
first. -/
def items (item : Reader α) (first : Bool) (done : List α) : (steps : Nat) → Reader (List α)
  | 0, text => .error (.before .endInList text)
  | steps + 1, text =>
    match nextItem first text with
    | .error fault => .error fault
    | .ok (.closed rest) => .ok (done.reverse, rest)
    | .ok (.entry text) =>
      match item text with
      | .error fault => .error fault
      | .ok (value, rest) => items item false (value :: done) steps rest

/-- Takes the members of an object and its closing bracket.  `member` is given what was made of
the members so far and a key, and takes what follows the key. -/
def members (purpose : Purpose) (member : σ → String → Reader σ) (first : Bool) (state : σ) :
    (steps : Nat) → Reader σ
  | 0, text => .error (.before .endInObject text)
  | steps + 1, text =>
    match nextMember first text with
    | .error fault => .error fault
    | .ok (.closed rest) => .ok (state, rest)
    | .ok (.entry text) =>
      match afterQuote purpose text with
      | .error fault => .error fault
      | .ok (key, rest) =>
        match member state key rest with
        | .error fault => .error fault
        | .ok (state, rest) => members purpose member false state steps rest

/-- Takes the value of a member and puts it among the members. -/
def putMember (value : Reader Value) (done : List (String × Value)) (key : String) :
    Reader (List (String × Value)) := fun text => do
  let (value, rest) ← value (← colon text)
  return (put key value done, rest)

/-- Takes a value of one level.  `nested` takes what stands in its brackets; without it brackets
are nested too deep. -/
def valueLevel (purpose : Purpose) (steps : Nat) (nested : Option (Reader Value)) :
    Reader Value := fun text =>
  match skipSpaces text with
  | [] => .error (.ending .endInValue)
  | c :: rest =>
    if c = 'n' then do
      let (_, rest) ← letters ['u', 'l', 'l'] rest
      return (.null, rest)
    else if c = 't' then do
      let (_, rest) ← letters ['r', 'u', 'e'] rest
      return (.bool true, rest)
    else if c = 'f' then do
      let (_, rest) ← letters ['a', 'l', 's', 'e'] rest
      return (.bool false, rest)
    else if c = '"' then do
      let (value, rest) ← afterQuote purpose rest
      return (.string value, rest)
    else if startsNumber c then do
      let (number, rest) ← numeral purpose (c :: rest)
      return (.number (String.ofList number.text), rest)
    else if c = '[' then
      match nested with
      | none => .error (.before .tooDeep rest)
      | some nested => do
        let (values, rest) ← items nested true [] steps rest
        return (.array values, rest)
    else if c = '{' then
      match nested with
      | none => .error (.before .tooDeep rest)
      | some nested => do
        let (found, rest) ← members purpose (putMember nested) true [] steps rest
        return (.object found, rest)
    else .error (.within .endInValue .expectedValue (c :: rest))

/-- Takes a value whose brackets nest at most as deep as the level. -/
def value (purpose : Purpose) (steps : Nat) : (level : Nat) → Reader Value
  | 0 => valueLevel purpose steps none
  | level + 1 => valueLevel purpose steps (some (value purpose steps level))

/-- Reads a text as a whole: after what the reader takes only spaces may follow. -/
def readAll (reader : Reader α) (text : List Char) : Except Fault α := do
  let (result, rest) ← reader text
  match skipSpaces rest with
  | [] => return result
  | c :: rest => .error (.within .endInValue .trailingCharacters (c :: rest))

/-- Reads the value that a text is. -/
def Value.read (text : List Char) : Except Fault Value :=
  readAll (value .value text.length maxNesting) text

end SearchQuery.Json
