import SearchQuery.Number.Binary64
import SearchQuery.Number.Integer

/-!
# The shortest decimal of a float

Every real number close enough to a finite float is rounded to that float: they form an interval,
which holds its ends exactly when the significand is even.  The shortest decimal is the point of
the interval on the coarsest grid of powers of ten that meets it.  When two neighbours on that
grid lie in the interval the nearer one is taken, and a rule for ties decides between two at the
same distance.
-/

namespace SearchQuery.Number

/-- Which of two decimals at the same distance is taken. -/
inductive Tie where
  | up
  | even
deriving DecidableEq, Repr

/-- A positive rational with the interval of what rounds to it; all over one denominator. -/
structure Neighbourhood where
  low : Nat
  middle : Nat
  high : Nat
  denominator : Nat
  closed : Bool
deriving DecidableEq, Repr

/-- The interval of a finite float.  A quarter of the last place is the unit.  Below a power of
two the floats lie twice as dense, so the interval reaches half as far down. -/
def Binary64.neighbourhood (x : Binary64) : Neighbourhood :=
  let quarters := 4 * x.significand
  let below := if x.fraction = 0 ∧ 1 < x.biasedExponent then 1 else 2
  let unit := Nat.pow 2 (x.exponent - 2).toNat
  { low := (quarters - below) * unit
    middle := quarters * unit
    high := (quarters + 2) * unit
    denominator := Nat.pow 2 (2 - x.exponent).toNat
    closed := x.significand % 2 = 0 }

namespace Neighbourhood

/-- The same numbers counted in units of ten to the power `e`. -/
def inUnits (v : Neighbourhood) (e : Int) : Neighbourhood :=
  let shrink := Nat.pow 10 e.toNat
  let grow := Nat.pow 10 (-e).toNat
  { v with
    low := v.low * grow
    middle := v.middle * grow
    high := v.high * grow
    denominator := v.denominator * shrink }

/-- Whether the interval holds the whole number `n`. -/
def contains (v : Neighbourhood) (n : Nat) : Bool :=
  if v.closed then v.low ≤ n * v.denominator && n * v.denominator ≤ v.high
  else v.low < n * v.denominator && n * v.denominator < v.high

/-- Of the two whole numbers about the middle one that the interval holds, the nearer if it
holds both. -/
def nearest? (tie : Tie) (v : Neighbourhood) : Option Nat :=
  let n := v.middle / v.denominator
  let rest := 2 * (v.middle % v.denominator)
  match v.contains n, v.contains (n + 1) with
  | false, false => none
  | true, false => some n
  | false, true => some (n + 1)
  | true, true =>
      if rest < v.denominator then some n
      else if v.denominator < rest then some (n + 1)
      else match tie with
        | .up => some (n + 1)
        | .even => if n % 2 = 0 then some n else some (n + 1)

/-- How many zeros follow the point of a fraction below one, at most `bound`. -/
def leadingZeros (denominator : Nat) : (bound numerator : Nat) → Nat
  | 0, _ => 0
  | bound + 1, numerator =>
      if denominator ≤ 10 * numerator then 0
      else 1 + leadingZeros denominator bound (10 * numerator)

/-- The least power of ten above the middle. -/
def magnitude (v : Neighbourhood) : Int :=
  if v.denominator ≤ v.middle then (natText (v.middle / v.denominator)).length
  else -leadingZeros v.denominator 400 v.middle

end Neighbourhood

/-- A positive decimal: digits that end in no zero, and the place of the point after the first
digit's left edge (`0.12` has the point at 0, `12` at 2). -/
structure Digits where
  digits : List Char
  point : Int
deriving DecidableEq, Repr

/-- The decimal `n * 10 ^ e` without the zeros at its end. -/
def Digits.ofNat (n : Nat) (e : Int) : Digits :=
  let text := natText n
  ⟨(text.reverse.dropWhile (· == '0')).reverse, e + text.length⟩

/-- The shortest decimal of a finite float other than zero.  Seventeen digits always suffice. -/
def Binary64.shortest (tie : Tie) (x : Binary64) : Digits :=
  let v := x.neighbourhood
  let found := (List.range 17).findSome? fun n =>
    let e := v.magnitude - (n + 1 : Nat)
    ((v.inUnits e).nearest? tie).map fun d => Digits.ofNat d e
  found.getD (Digits.ofNat x.significand x.exponent)

end SearchQuery.Number
