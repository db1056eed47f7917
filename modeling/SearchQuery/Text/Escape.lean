/-!
# Escaping

A value is written so that the query syntax reads it as plain text: a backslash in it is
doubled, and every operator of the syntax gets a backslash in front.  The doubling is done once
and first; then each operator has a pass of its own, in the order of `operators`.
-/

namespace SearchQuery.Text

/-- An operator of the query syntax: one character, or one character written twice. -/
inductive Operator where
  | single (c : Char)
  | double (c : Char)
deriving DecidableEq, Repr

/-- The operators of the query syntax, in the order in which they are escaped. -/
def operators : List Operator :=
  [.single '+', .single '-', .double '&', .double '|', .single '!', .single '(', .single ')',
    .single '{', .single '}', .single '[', .single ']', .single '^', .single '"', .single '~',
    .single '*', .single '?', .single ':', .single '/']

/-- Every backslash written twice. -/
def doubleBackslashes (text : List Char) : List Char :=
  text.flatMap fun c => if c = '\\' then ['\\', '\\'] else [c]

/-- A backslash before every pair of neighbouring `c`, the pairs taken from the left and not
overlapping.  `done` holds what is already written, last character first. -/
def escapePairs (c : Char) (done : List Char) : List Char → List Char
  | a :: b :: rest =>
      if a = c ∧ b = c then escapePairs c (c :: c :: '\\' :: done) rest
      else escapePairs c (a :: done) (b :: rest)
  | [a] => (a :: done).reverse
  | [] => done.reverse

/-- A backslash before every occurrence of the operator. -/
def Operator.escapeIn : Operator → List Char → List Char
  | .single c, text => text.flatMap fun a => if a = c then ['\\', c] else [a]
  | .double c, text => escapePairs c [] text

/-- The text written so that the query syntax reads it as plain text. -/
def escape (text : List Char) : List Char :=
  operators.foldl (fun done operator => operator.escapeIn done) (doubleBackslashes text)

/-- A field name as it stands in a query: it is never escaped. -/
def fieldName (name : String) : List Char :=
  name.toList

/-! ## Examples -/

example : escape "a&&b|c".toList = "a\\&&b|c".toList := by decide

/-- Of three ampersands the first two are the operator. -/
example : escape "&&&".toList = "\\&&&".toList := by decide

/-- The backslash in front of an operator is not doubled again. -/
example : escape "\\+".toList = "\\\\\\+".toList := by decide

end SearchQuery.Text
