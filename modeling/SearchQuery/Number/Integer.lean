/-!
# Whole numbers as text

Whole numbers are written with ASCII digits and no leading zero, a negative one with `-` in
front.  Reading is more liberal: leading zeros are allowed, and a `+` may stand in front.  A
reader for a bounded type refuses a number outside its range.
-/

namespace SearchQuery.Number

/-! ## Writing -/

/-- The digits of a number. -/
def natText (n : Nat) : List Char :=
  Nat.toDigits 10 n

/-- A whole number, with `-` in front of a negative one. -/
def intText : Int → List Char
  | .ofNat n => natText n
  | .negSucc n => '-' :: natText (n + 1)

/-! ## Reading -/

/-- Whether a character is one of the ten ASCII digits. -/
def isDigit (c : Char) : Bool :=
  '0' ≤ c && c ≤ '9'

/-- The value of a digit. -/
def digitValue (c : Char) : Nat :=
  c.toNat - '0'.toNat

/-- The value of a list of digits, read as the continuation of `n`. -/
def digitsValue (n : Nat) (digits : List Char) : Nat :=
  digits.foldl (fun value c => 10 * value + digitValue c) n

/-- Reads one or more digits, and nothing else. -/
def nat? (text : List Char) : Option Nat :=
  if text ≠ [] ∧ text.all isDigit then some (digitsValue 0 text) else none

/-- Reads digits after an optional `+`. -/
def unsigned? : List Char → Option Nat
  | '+' :: rest => nat? rest
  | text => nat? text

/-- Reads digits after an optional sign. -/
def signed? : List Char → Option Int
  | '+' :: rest => (nat? rest).map Int.ofNat
  | '-' :: rest => (nat? rest).map fun n => -Int.ofNat n
  | text => (nat? text).map Int.ofNat

/-- A number of the unsigned 32-bit range. -/
def uint32? (n : Int) : Option UInt32 :=
  if 0 ≤ n ∧ n < Nat.pow 2 32 then some (.ofNat n.toNat) else none

/-- A number of the signed 32-bit range. -/
def int32? (n : Int) : Option Int32 :=
  if -Nat.pow 2 31 ≤ n ∧ n < Nat.pow 2 31 then some (.ofInt n) else none

/-- A number of the signed 64-bit range. -/
def int64? (n : Int) : Option Int64 :=
  if -Nat.pow 2 63 ≤ n ∧ n < Nat.pow 2 63 then some (.ofInt n) else none

/-- A number of the unsigned 64-bit range. -/
def uint64? (n : Int) : Option UInt64 :=
  if 0 ≤ n ∧ n < Nat.pow 2 64 then some (.ofNat n.toNat) else none

/-- Reads an unsigned 32-bit number.  A `-` is refused, before a zero too. -/
def readUInt32? (text : List Char) : Option UInt32 :=
  unsigned? text >>= fun n => uint32? n

/-- Reads a signed 32-bit number. -/
def readInt32? (text : List Char) : Option Int32 :=
  signed? text >>= int32?

/-- Reads a signed 64-bit number. -/
def readInt64? (text : List Char) : Option Int64 :=
  signed? text >>= int64?

/-- Reads an unsigned 64-bit number. -/
def readUInt64? (text : List Char) : Option UInt64 :=
  unsigned? text >>= fun n => uint64? n

/-! ## Examples -/

example : readInt32? "-0".toList = some 0 ∧ readUInt32? "-0".toList = none := by decide

example : readInt32? "+007".toList = some 7 ∧ readInt32? "+-7".toList = none := by decide

example : readInt32? "-2147483648".toList = some (-2147483648) ∧
    readInt32? "2147483648".toList = none := by decide

example : readUInt32? "4294967295".toList = some 4294967295 ∧
    readUInt32? "4294967296".toList = none := by decide

end SearchQuery.Number
