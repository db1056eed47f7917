import SearchQuery.Number.Integer

/-!
# Decimal text and the range of a 64-bit float

A decimal is an optional sign, digits with an optional point among, before or after them, and an
optional exponent.  It is finite when the nearest 64-bit float is finite: when its magnitude is
below the midpoint between the largest float and the power of two that follows.  The comparison
is exact.
-/

namespace SearchQuery.Number

/-- A decimal: `digits` read as a whole number, times ten to the power `scale`. -/
structure Decimal where
  negative : Bool
  digits : List Char
  scale : Int
deriving DecidableEq, Repr

/-- Reads an optional exponent, which must end the text. -/
def exponent? : List Char → Option Int
  | [] => some 0
  | c :: rest => if c = 'e' ∨ c = 'E' then signed? rest else none

/-- Reads digits with an optional point, and what follows them. -/
def Decimal.unsigned? (negative : Bool) (text : List Char) : Option Decimal :=
  let whole := text.takeWhile isDigit
  let (fraction, rest) :=
    match text.dropWhile isDigit with
    | '.' :: rest => (rest.takeWhile isDigit, rest.dropWhile isDigit)
    | rest => ([], rest)
  if whole = [] ∧ fraction = [] then none
  else (exponent? rest).map fun e => ⟨negative, whole ++ fraction, e - fraction.length⟩

/-- Reads a decimal that is the whole text. -/
def Decimal.ofText? : List Char → Option Decimal
  | '+' :: rest => Decimal.unsigned? false rest
  | '-' :: rest => Decimal.unsigned? true rest
  | text => Decimal.unsigned? false text

/-- The least magnitude that the nearest 64-bit float does not reach. -/
def floatBound : Nat :=
  Nat.pow 2 1024 - Nat.pow 2 970

/-- Whether a decimal lies in the range of the 64-bit floats.  A scale above 308 puts every
magnitude but zero beyond the bound; a negative scale as long as the digits leaves less than
one.  Both are decided without a power of ten. -/
def Decimal.isFinite (d : Decimal) : Bool :=
  let n := digitsValue 0 d.digits
  match d.scale with
  | .ofNat e => n = 0 || (e ≤ 308 && n * Nat.pow 10 e < floatBound)
  | .negSucc e => d.digits.length ≤ e + 1 || n < floatBound * Nat.pow 10 (e + 1)

/-- Whether a text is a decimal in the range of the 64-bit floats. -/
def isFiniteDecimal (text : List Char) : Bool :=
  (Decimal.ofText? text).any Decimal.isFinite

/-! ## Examples -/

example : Decimal.ofText? "1.".toList = some ⟨false, ['1'], 0⟩ := by decide

example : Decimal.ofText? "-.50e+3".toList = some ⟨true, ['5', '0'], 1⟩ := by decide

example : ¬ isFiniteDecimal ".".toList ∧ ¬ isFiniteDecimal "1e".toList ∧
    ¬ isFiniteDecimal "inf".toList := by decide

end SearchQuery.Number
