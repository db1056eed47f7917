import SearchQuery.Proofs.TokenReading

/-!
# Reading whole numbers

A whole number is read from its text as what it is, and a number of a bounded type by the reader of
this type: `readUInt32?_natText` and `readInt32?_intText`.  It makes no difference to what is read
whether a text goes through a wider type first: `readInt64?_bind_int32?` and
`readUInt64?_bind_uint32?`.  More texts than these are read, and `nat?_eq_some_iff`,
`signed?_eq_some_iff` and `unsigned?_eq_some_iff` say which, and as what.
-/

namespace SearchQuery.Number

open Json (IsDigits)

theorem digitsValue_natText (n : Nat) : digitsValue 0 (natText n) = n :=
  Nat.ofDigitChars_toDigits (by decide) (by decide)

/-- Further digits never make a number smaller. -/
theorem le_digitsValue (n : Nat) (digits : List Char) : n ≤ digitsValue n digits := by
  induction digits generalizing n with
  | nil => exact Nat.le_refl n
  | cons c digits ih =>
    have hrest := ih (10 * n + digitValue c)
    rw [digitsValue, List.foldl_cons, ← digitsValue]
    omega

theorem nat?_natText (n : Nat) : nat? (natText n) = some n := by
  have hdigits : (natText n).all isDigit = true :=
    List.all_eq_true.mpr fun _ => isDigit_of_mem_natText
  rw [nat?, if_pos ⟨natText_ne_nil n, hdigits⟩, digitsValue_natText]

/-- No sign stands in front of digits. -/
theorem natText_ne_cons {c : Char} (hc : isDigit c = false) (n : Nat) (rest : List Char) :
    natText n ≠ c :: rest := by
  intro heq
  have hdigit : isDigit c = true := isDigit_of_mem_natText (heq ▸ List.mem_cons_self)
  exact absurd hdigit (by simp [hc])

theorem unsigned?_natText (n : Nat) : unsigned? (natText n) = some n := by
  unfold unsigned?
  split
  · next rest heq => exact absurd heq (natText_ne_cons (by decide) n rest)
  · exact nat?_natText n

theorem signed?_natText (n : Nat) : signed? (natText n) = some (Int.ofNat n) := by
  unfold signed?
  split
  · next rest heq => exact absurd heq (natText_ne_cons (by decide) n rest)
  · next rest heq => exact absurd heq (natText_ne_cons (by decide) n rest)
  · rw [nat?_natText]
    rfl

theorem signed?_intText (n : Int) : signed? (intText n) = some n := by
  cases n with
  | ofNat n => exact signed?_natText n
  | negSucc n =>
    rw [intText, signed?, nat?_natText]
    rfl

/-! ## Bounded types -/

theorem uint32?_toNat (n : UInt32) : uint32? n.toNat = some n := by
  have hlt : (n.toNat : Int) < Nat.pow 2 32 := Int.ofNat_lt.mpr n.toNat_lt
  rw [uint32?, if_pos ⟨Int.natCast_nonneg _, hlt⟩, Int.toNat_natCast, UInt32.ofNat_toNat]

theorem int32?_toInt (n : Int32) : int32? n.toInt = some n := by
  have hlow := n.le_toInt
  have hhigh := n.toInt_lt
  have hpow : Nat.pow 2 31 = 2147483648 := rfl
  rw [int32?, hpow, if_pos ⟨by omega, by omega⟩, Int32.ofInt_toInt]

theorem int64?_toInt (n : Int64) : int64? n.toInt = some n := by
  have hlow := n.le_toInt
  have hhigh := n.toInt_lt
  have hpow : Nat.pow 2 63 = 9223372036854775808 := rfl
  rw [int64?, hpow, if_pos ⟨by omega, by omega⟩, Int64.ofInt_toInt]

theorem readUInt32?_natText (n : UInt32) : readUInt32? (natText n.toNat) = some n := by
  rw [readUInt32?, unsigned?_natText, Option.bind_eq_bind, Option.bind_some, uint32?_toNat]

theorem readInt32?_intText (n : Int32) : readInt32? (intText n.toInt) = some n := by
  rw [readInt32?, signed?_intText, Option.bind_eq_bind, Option.bind_some, int32?_toInt]

/-! ## Narrowing -/

/-- What does not fit into 64 bits does not fit into 32 either. -/
theorem readInt64?_bind_int32? (text : List Char) :
    (readInt64? text >>= fun n => int32? n.toInt) = readInt32? text := by
  rw [readInt64?, readInt32?, Option.bind_eq_bind, Option.bind_eq_bind, Option.bind_assoc]
  refine Option.bind_congr fun n _ => ?_
  have hpow : Nat.pow 2 31 = 2147483648 := rfl
  have hpow' : Nat.pow 2 63 = 9223372036854775808 := rfl
  rw [int64?, hpow']
  split
  · next h => rw [Option.bind_some, Int64.toInt_ofInt_of_le (by omega) (by omega)]
  · next h => rw [Option.bind_none, int32?, hpow, if_neg (by omega)]

theorem readUInt64?_bind_uint32? (text : List Char) :
    (readUInt64? text >>= fun n => uint32? n.toNat) = readUInt32? text := by
  rw [readUInt64?, readUInt32?, Option.bind_eq_bind, Option.bind_eq_bind, Option.bind_assoc]
  refine Option.bind_congr fun n _ => ?_
  have hpow : Nat.pow 2 32 = 4294967296 := rfl
  have hpow' : Nat.pow 2 64 = 18446744073709551616 := rfl
  rw [uint64?, hpow']
  split
  · next h =>
    have hlt : n < 18446744073709551616 := by omega
    rw [Option.bind_some, Int.toNat_natCast, UInt64.toNat_ofNat_of_lt' hlt]
  · next h => rw [Option.bind_none, uint32?, hpow, if_neg (by omega)]

/-! ## What is read -/

theorem nat?_eq_some_iff {text : List Char} {n : Nat} :
    nat? text = some n ↔ IsDigits text ∧ n = digitsValue 0 text := by
  rw [nat?]
  split
  · next h =>
    refine ⟨fun hsome => ⟨⟨h.1, List.all_eq_true.mp h.2⟩, (Option.some.inj hsome).symm⟩, ?_⟩
    rintro ⟨_, rfl⟩
    rfl
  · next h =>
    refine ⟨nofun, fun hdigits => ?_⟩
    exact absurd ⟨hdigits.1.ne_nil, List.all_eq_true.mpr hdigits.1.isDigit⟩ h

/-- A sign as it is written: a minus, a plus, or none. -/
def signText : Option Bool → List Char
  | none => []
  | some negative => [if negative then '-' else '+']

/-- The value of digits behind a sign. -/
def signedValue (sign : Option Bool) (digits : List Char) : Int :=
  if sign = some true then -(digitsValue 0 digits : Int) else digitsValue 0 digits

theorem signed?_signText {digits : List Char} (h : IsDigits digits) (sign : Option Bool) :
    signed? (signText sign ++ digits) = some (signedValue sign digits) := by
  have hnat : nat? digits = some (digitsValue 0 digits) := nat?_eq_some_iff.mpr ⟨h, rfl⟩
  rcases sign with _ | _ | _
  · rw [signText, List.nil_append]
    unfold signed?
    split
    · next heq => exact absurd rfl (h.ne_cons (by decide) _)
    · next heq => exact absurd rfl (h.ne_cons (by decide) _)
    · rw [hnat]
      rfl
  · exact congrArg (Option.map Int.ofNat) hnat
  · exact congrArg (Option.map fun n => -Int.ofNat n) hnat

/-- Digits are read with an optional sign in front, and nothing else is. -/
theorem signed?_eq_some_iff {text : List Char} {n : Int} :
    signed? text = some n ↔
      ∃ sign digits, IsDigits digits ∧ text = signText sign ++ digits ∧
        n = signedValue sign digits := by
  constructor
  · intro h
    unfold signed? at h
    split at h
    · obtain ⟨m, hm, rfl⟩ := Option.map_eq_some_iff.mp h
      obtain ⟨hdigits, rfl⟩ := nat?_eq_some_iff.mp hm
      exact ⟨some false, _, hdigits, rfl, rfl⟩
    · obtain ⟨m, hm, rfl⟩ := Option.map_eq_some_iff.mp h
      obtain ⟨hdigits, rfl⟩ := nat?_eq_some_iff.mp hm
      exact ⟨some true, _, hdigits, rfl, rfl⟩
    · obtain ⟨m, hm, rfl⟩ := Option.map_eq_some_iff.mp h
      obtain ⟨hdigits, rfl⟩ := nat?_eq_some_iff.mp hm
      exact ⟨none, _, hdigits, rfl, rfl⟩
  · rintro ⟨sign, digits, hdigits, rfl, rfl⟩
    exact signed?_signText hdigits sign

theorem unsigned?_eq_some_iff {text : List Char} {n : Nat} :
    unsigned? text = some n ↔
      ∃ digits, IsDigits digits ∧ (text = digits ∨ text = '+' :: digits) ∧
        n = digitsValue 0 digits := by
  constructor
  · intro h
    unfold unsigned? at h
    split at h
    · obtain ⟨hdigits, hn⟩ := nat?_eq_some_iff.mp h
      exact ⟨_, hdigits, .inr rfl, hn⟩
    · obtain ⟨hdigits, hn⟩ := nat?_eq_some_iff.mp h
      exact ⟨_, hdigits, .inl rfl, hn⟩
  · rintro ⟨digits, hdigits, rfl | rfl, hn⟩
    · unfold unsigned?
      split
      · next heq => exact absurd rfl (hdigits.ne_cons (by decide) _)
      · exact nat?_eq_some_iff.mpr ⟨hdigits, hn⟩
    · exact nat?_eq_some_iff.mpr ⟨hdigits, hn⟩

end SearchQuery.Number
