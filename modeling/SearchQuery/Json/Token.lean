import SearchQuery.Json.Fault
import SearchQuery.Number.Integer

/-!
# JSON tokens

Readers of the parts of a JSON text that hold no other value: blanks, words, numbers and strings.
A reader takes what it reads from the front of a text and returns it with the rest.
-/

namespace SearchQuery.Json

/-- Takes an `α` from the front of a text. -/
abbrev Reader (α : Type) :=
  List Char → Except Fault (α × List Char)

/-- What a text is read for.  What is only skipped is held to the grammar less closely: escaped
surrogates need not form pairs, and an unpaired one stands for the replacement character.  A
number that breaks off at the end of the text is an invalid number there, and otherwise the end
of a value. -/
inductive Purpose where
  | value
  | skip
deriving DecidableEq, Repr

/-- Whether a character may stand between tokens. -/
def isSpace (c : Char) : Bool :=
  c = ' ' || c = '\n' || c = '\t' || c = '\r'

/-- The text without the spaces it begins with. -/
def skipSpaces (text : List Char) : List Char :=
  text.dropWhile isSpace

/-- Takes the given letters. -/
def letters : List Char → Reader Unit
  | [], text => .ok ((), text)
  | letter :: more, text =>
    match text with
    | c :: rest =>
        if c = letter then letters more rest
        else .error (.within .endInValue .expectedWord (c :: rest))
    | [] => .error (.ending .endInValue)

/-! ## Numbers -/

/-- A number as it was written.  The fraction is empty where no point was written; an exponent is
whether it was negative, and its digits. -/
structure Numeral where
  negative : Bool
  whole : List Char
  fraction : List Char
  exponent : Option (Bool × List Char)
deriving DecidableEq, Repr

/-- The text of a number: the exponent is marked with a small `e` and always has a sign. -/
def Numeral.text (n : Numeral) : List Char :=
  (if n.negative then ['-'] else []) ++ n.whole
    ++ (if n.fraction = [] then [] else '.' :: n.fraction)
    ++ match n.exponent with
      | none => []
      | some (negative, digits) => 'e' :: (if negative then '-' else '+') :: digits

/-- What is wrong with a number that the text ends in. -/
def Purpose.brokenNumber : Purpose → Problem
  | .value => .endInValue
  | .skip => .invalidNumber

/-- Takes one or more digits. -/
def digits (purpose : Purpose) : Reader (List Char) := fun text =>
  match text.takeWhile Number.isDigit with
  | [] => .error (.within purpose.brokenNumber .invalidNumber text)
  | taken => .ok (taken, text.dropWhile Number.isDigit)

/-- Takes digits that have no zero in front of others. -/
def wholeDigits (purpose : Purpose) : Reader (List Char) := fun text =>
  match digits purpose text with
  | .ok ('0' :: _ :: _, _) => .error (.before .invalidNumber (text.drop 2))
  | result => result

/-- Takes a point and digits, if there is a point. -/
def fractionDigits (purpose : Purpose) : Reader (List Char)
  | '.' :: rest => digits purpose rest
  | text => .ok ([], text)

/-- Takes the sign of an exponent, if there is one. -/
def exponentSign : List Char → Bool × List Char
  | '-' :: rest => (true, rest)
  | '+' :: rest => (false, rest)
  | text => (false, text)

/-- Takes an exponent, if there is one. -/
def exponentDigits (purpose : Purpose) : Reader (Option (Bool × List Char))
  | [] => .ok (none, [])
  | c :: rest =>
    if c = 'e' ∨ c = 'E' then do
      let (negative, rest) := exponentSign rest
      let (taken, rest) ← digits purpose rest
      return (some (negative, taken), rest)
    else .ok (none, c :: rest)

/-- Takes a number. -/
def numeral (purpose : Purpose) : Reader Numeral := fun text => do
  let (negative, rest) := match text with
    | '-' :: rest => (true, rest)
    | rest => (false, rest)
  let (whole, rest) ← wholeDigits purpose rest
  let (fraction, rest) ← fractionDigits purpose rest
  let (exponent, rest) ← exponentDigits purpose rest
  return (⟨negative, whole, fraction, exponent⟩, rest)

/-- Whether a number begins with this character. -/
def startsNumber (c : Char) : Bool :=
  c = '-' || Number.isDigit c

/-! ## Strings -/

/-- The value of a hexadecimal digit of either case. -/
def hexValue? (c : Char) : Option Nat :=
  if Number.isDigit c then some (Number.digitValue c)
  else if 'a' ≤ c ∧ c ≤ 'f' then some (c.toNat - 'a'.toNat + 10)
  else if 'A' ≤ c ∧ c ≤ 'F' then some (c.toNat - 'A'.toNat + 10)
  else none

/-- The number of four hexadecimal digits. -/
def hexUnit? : List Char → Option Nat
  | a :: b :: c :: d :: _ => do
      return 4096 * (← hexValue? a) + 256 * (← hexValue? b) + 16 * (← hexValue? c)
        + (← hexValue? d)
  | _ => none

/-- The number of the four hexadecimal digits at the front of a text.  The next four bytes are
taken before they are looked at. -/
def hexUnit (text : List Char) : Except Fault Nat :=
  match hexUnit? text with
  | some n => .ok n
  | none =>
      if byteLength text < 4 then .error (.ending .endInString)
      else .error ⟨.invalidEscape, byteLength text - 4⟩

/-- Whether a unit is the first of a pair. -/
def isHighSurrogate (n : Nat) : Bool :=
  0xD800 ≤ n && n ≤ 0xDBFF

/-- Whether a unit is the second of a pair. -/
def isLowSurrogate (n : Nat) : Bool :=
  0xDC00 ≤ n && n ≤ 0xDFFF

/-- The character of a pair of units. -/
def pairChar (high low : Nat) : Char :=
  Char.ofNat (0x10000 + (high - 0xD800) * 0x400 + (low - 0xDC00))

/-- The character of the pair that begins with `high`, when `text` follows its four digits, and
the number of characters of `text` that belong to it. -/
def pairedEscape (high : Nat) (text : List Char) : Except Fault (Char × Nat) :=
  match text with
  | '\\' :: 'u' :: rest => do
      let low ← hexUnit rest
      if isLowSurrogate low then return (pairChar high low, 6)
      else .error (.before .loneSurrogate (rest.drop 4))
  | '\\' :: rest => .error (.within .endInString .brokenPair rest)
  | rest => .error (.within .endInString .brokenPair rest)

/-- The character written by the digits after `\u`, and the number of characters that belong to
it. -/
def unicodeEscape (purpose : Purpose) (text : List Char) : Except Fault (Char × Nat) := do
  let unit ← hexUnit text
  if isHighSurrogate unit || isLowSurrogate unit then
    match purpose with
    | .skip => return ('\uFFFD', 4)
    | .value =>
      if isLowSurrogate unit then .error (.before .loneSurrogate (text.drop 4))
      else
        let (char, taken) ← pairedEscape unit (text.drop 4)
        return (char, 4 + taken)
  else return (Char.ofNat unit, 4)

/-- The characters that a single letter stands for after a backslash. -/
def shortEscapes : List (Char × Char) :=
  [('"', '"'), ('\\', '\\'), ('/', '/'), ('b', '\x08'), ('f', '\x0c'), ('n', '\n'), ('r', '\r'),
    ('t', '\t')]

/-- The character written after a backslash, and the number of characters that belong to it. -/
def escaped (purpose : Purpose) : List Char → Except Fault (Char × Nat)
  | [] => .error (.ending .endInString)
  | c :: rest =>
    if c = 'u' then do
      let (char, taken) ← unicodeEscape purpose rest
      return (char, 1 + taken)
    else
      match shortEscapes.lookup c with
      | some char => .ok (char, 1)
      | none => .error (.within .endInString .invalidEscape (c :: rest))

/-- Takes the rest of a string with its closing quote.  `skip` characters belong to an escape
that is already read, and `done` holds the characters read so far, last first. -/
def stringRest (purpose : Purpose) (skip : Nat) (done : List Char) : Reader String
  | [] => .error (.ending .endInString)
  | c :: rest =>
    match skip with
    | skip + 1 => stringRest purpose skip done rest
    | 0 =>
      if c = '"' then .ok (String.ofList done.reverse, rest)
      else if c = '\\' then
        match escaped purpose rest with
        | .ok (char, taken) => stringRest purpose taken (char :: done) rest
        | .error fault => .error fault
      else if c < ' ' then .error (.before .controlCharacter rest)
      else stringRest purpose 0 (c :: done) rest

/-- Takes a string whose opening quote is taken already. -/
def afterQuote (purpose : Purpose) : Reader String :=
  stringRest purpose 0 []

end SearchQuery.Json
