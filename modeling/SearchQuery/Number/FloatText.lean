import SearchQuery.Number.Shortest

/-!
# Floats as text

A finite float is written with the fewest digits that read back as the same float, in a layout
that a format fixes: the rule for ties, the exponents that are written without an exponent part,
what follows a whole number, and the words for what is no finite number.
-/

namespace SearchQuery.Number

/-- The decisions of a format for floats. -/
structure FloatFormat where
  tie : Tie
  /-- Whether a number with its point at this place is written without an exponent part. -/
  isPositional : Int → Bool
  /-- What follows a whole number that is written without an exponent part. -/
  afterWhole : String
  nan : String
  infinity : String
  negativeInfinity : String

/-- As many zeros as `n` says, none if it is negative. -/
def zeros (n : Int) : List Char :=
  List.replicate n.toNat '0'

/-- Digits with the point in its place. -/
def Digits.positional (afterWhole : String) (d : Digits) : List Char :=
  if d.point ≤ 0 then
    '0' :: '.' :: (zeros (-d.point) ++ d.digits)
  else if d.digits.length ≤ d.point then
    d.digits ++ zeros (d.point - d.digits.length) ++ afterWhole.toList
  else
    d.digits.take d.point.toNat ++ '.' :: d.digits.drop d.point.toNat

/-- One digit, the others after a point, and an exponent part. -/
def Digits.scientific (d : Digits) : List Char :=
  let rest := d.digits.drop 1
  d.digits.take 1 ++ (if rest = [] then [] else '.' :: rest) ++ 'e' :: intText (d.point - 1)

/-- The magnitude of a finite float. -/
def Binary64.magnitudeText (format : FloatFormat) (x : Binary64) : List Char :=
  if x.significand = 0 then '0' :: format.afterWhole.toList
  else
    let d := x.shortest format.tie
    if format.isPositional d.point then d.positional format.afterWhole else d.scientific

/-- A float in the given format. -/
def Binary64.text (format : FloatFormat) (x : Binary64) : List Char :=
  if x.isFinite then
    if x.isNegative then '-' :: x.magnitudeText format else x.magnitudeText format
  else if x.isNaN then format.nan.toList
  else if x.isNegative then format.negativeInfinity.toList
  else format.infinity.toList

end SearchQuery.Number
