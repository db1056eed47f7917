/-!
# Faults of a JSON text

What can be wrong with a JSON text, and where.  A reader takes characters from the front of a
text, so it knows what is left of the text and not what it has taken: a fault keeps how many
bytes are left after its place, and `Fault.position` turns that into a line and a column once the
whole text is at hand.  Places are counted in bytes of UTF-8.
-/

namespace SearchQuery.Json

/-- What is wrong with a text. -/
inductive Problem where
  | endInValue
  | endInList
  | endInObject
  | endInString
  | expectedValue
  | expectedWord
  | expectedColon
  | expectedCommaOrBracket
  | expectedCommaOrBrace
  | trailingComma
  | keyNotString
  | invalidNumber
  | numberOutOfRange
  | controlCharacter
  | invalidEscape
  | loneSurrogate
  | brokenPair
  | tooDeep
  | trailingCharacters
  /-- Well-formed so far, but not of the form that the reader was asked for. -/
  | mismatch
deriving DecidableEq, Repr

namespace Problem

/-- The wording of a problem. -/
def message : Problem → String
  | endInValue => "EOF while parsing a value"
  | endInList => "EOF while parsing a list"
  | endInObject => "EOF while parsing an object"
  | endInString => "EOF while parsing a string"
  | expectedValue => "expected value"
  | expectedWord => "expected ident"
  | expectedColon => "expected `:`"
  | expectedCommaOrBracket => "expected `,` or `]`"
  | expectedCommaOrBrace => "expected `,` or `\x7d`"
  | trailingComma => "trailing comma"
  | keyNotString => "key must be a string"
  | invalidNumber => "invalid number"
  | numberOutOfRange => "number out of range"
  | controlCharacter => "control character (\\u0000-\\u001F) found while parsing a string"
  | invalidEscape => "invalid escape"
  | loneSurrogate => "lone leading surrogate in hex escape"
  | brokenPair => "unexpected end of hex escape"
  | tooDeep => "recursion limit exceeded"
  | trailingCharacters => "trailing characters"
  | mismatch => "value of another form expected"

end Problem

/-- The kinds of problems: the text breaks the grammar, it has another form than asked for, or it
ends too early. -/
inductive Category where
  | grammar
  | form
  | ending
deriving DecidableEq, Repr

/-- The kind of a problem. -/
def Problem.category : Problem → Category
  | endInValue | endInList | endInObject | endInString => .ending
  | mismatch => .form
  | _ => .grammar

/-- The number of bytes of a text. -/
def byteLength (text : List Char) : Nat :=
  text.foldl (fun n c => n + c.utf8Size) 0

/-- A problem, and how many bytes of the text are left after the place where it was noticed. -/
structure Fault where
  problem : Problem
  left : Nat
deriving DecidableEq, Repr

namespace Fault

/-- A problem noticed with all of `rest` left. -/
def before (problem : Problem) (rest : List Char) : Fault :=
  ⟨problem, byteLength rest⟩

/-- A problem of the text ending here. -/
def ending (problem : Problem) : Fault :=
  ⟨problem, 0⟩

/-- A problem of what stands at the head of `rest`, noticed once the first byte of it is taken;
another problem if nothing stands there. -/
def within (atEnd problem : Problem) (rest : List Char) : Fault :=
  if rest = [] then ending atEnd else ⟨problem, byteLength rest - 1⟩

end Fault

/-- A place in a text: lines count from one, columns count the bytes of the line before it. -/
structure Position where
  line : Nat
  column : Nat
deriving DecidableEq, Repr

/-- The place after the first `bytes` bytes of a text. -/
def Position.after (bytes : Nat) (text : List Char) : Position :=
  let (_, lineStart, line) := text.foldl (fun (offset, lineStart, line) c =>
    if c = '\n' ∧ offset < bytes then (offset + 1, offset + 1, line + 1)
    else (offset + c.utf8Size, lineStart, line)) (0, 0, 1)
  ⟨line, bytes - lineStart⟩

/-- Where a fault of a text was noticed. -/
def Fault.position (fault : Fault) (text : List Char) : Position :=
  Position.after (byteLength text - fault.left) text

end SearchQuery.Json
