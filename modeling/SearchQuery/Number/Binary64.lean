/-!
# 64-bit floats

A float is held as its bits: a sign, eleven bits of biased exponent and 52 bits of fraction.  So
two floats are equal exactly when they are the same float, and what a float stands for is a
matter of whole-number arithmetic: a finite one is, up to its sign, `significand * 2 ^ exponent`.
-/

namespace SearchQuery.Number

/-- A 64-bit float, as its bits. -/
structure Binary64 where
  bits : UInt64
deriving DecidableEq, Repr, Inhabited

namespace Binary64

/-- Whether the sign bit is set. -/
def isNegative (x : Binary64) : Bool :=
  Nat.pow 2 63 ≤ x.bits.toNat

/-- The eleven bits of the exponent. -/
def biasedExponent (x : Binary64) : Nat :=
  x.bits.toNat / Nat.pow 2 52 % Nat.pow 2 11

/-- The 52 bits of the fraction. -/
def fraction (x : Binary64) : Nat :=
  x.bits.toNat % Nat.pow 2 52

/-- Whether the float stands for a number. -/
def isFinite (x : Binary64) : Bool :=
  x.biasedExponent ≠ 2047

/-- Whether the float stands for no number and is no infinity. -/
def isNaN (x : Binary64) : Bool :=
  x.biasedExponent = 2047 ∧ x.fraction ≠ 0

/-- The whole number that `2 ^ exponent` multiplies; the leading bit is implied unless the
exponent is the least one. -/
def significand (x : Binary64) : Nat :=
  if x.biasedExponent = 0 then x.fraction else x.fraction + Nat.pow 2 52

/-- The power of two that multiplies the significand. -/
def exponent (x : Binary64) : Int :=
  (max x.biasedExponent 1 : Nat) - 1075

/-- The float with the same bits. -/
def ofFloat (x : Float) : Binary64 :=
  ⟨x.toBits⟩

end Binary64

/-- The value of the float nearest a whole number; of two equally near the one with an even
significand.  Up to `2 ^ 53` it is the number itself. -/
def nearestFloat (n : Nat) : Nat :=
  if n ≤ Nat.pow 2 53 then n
  else
    let place := Nat.pow 2 (n.log2 - 52)
    let significand := n / place
    let rest := 2 * (n % place)
    if rest < place ∨ (rest = place ∧ significand % 2 = 0) then significand * place
    else (significand + 1) * place

theorem nearestFloat_of_le {n : Nat} (h : n ≤ Nat.pow 2 53) : nearestFloat n = n := by
  rw [nearestFloat, if_pos h]

/-- A tie goes to the even significand. -/
example : nearestFloat (2 ^ 53 + 1) = 2 ^ 53 ∧ nearestFloat (2 ^ 53 + 3) = 2 ^ 53 + 4 := by
  decide

end SearchQuery.Number
