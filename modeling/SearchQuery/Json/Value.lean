import SearchQuery.Number.Integer

/-!
# JSON values

A number is kept as its text, so it stays as long and as precise as it was written.  An object is
the list of its members in order, and no two of them have the same key.  The compact text of a
value has no blanks, and escapes in strings only what the format requires.
-/

namespace SearchQuery.Json

/-- A JSON value. -/
inductive Value where
  | null
  | bool (value : Bool)
  | number (text : String)
  | string (value : String)
  | array (items : List Value)
  | object (members : List (String × Value))
deriving Repr, Inhabited

/-- The members with `key` set to `value`: a key that is there keeps its place, a new one comes
last. -/
def put (key : String) (value : Value) : List (String × Value) → List (String × Value)
  | [] => [(key, value)]
  | member :: rest =>
      if member.1 = key then (key, value) :: rest else member :: put key value rest

/-- The value of a member of an object, if the value is an object and has the member. -/
def Value.member? (key : String) : Value → Option Value
  | .object members => members.lookup key
  | _ => none

theorem lookup_put_self (key : String) (value : Value) (members : List (String × Value)) :
    (put key value members).lookup key = some value := by
  induction members with
  | nil => simp [put]
  | cons member rest ih =>
    obtain ⟨name, old⟩ := member
    by_cases h : name = key
    · simp [put, h]
    · simp [put, h, List.lookup_cons, beq_false_of_ne (Ne.symm h), ih]

theorem lookup_put_of_ne {key other : String} (h : other ≠ key) (value : Value)
    (members : List (String × Value)) :
    (put key value members).lookup other = members.lookup other := by
  induction members with
  | nil => simp [put, List.lookup_cons, beq_false_of_ne h]
  | cons member rest ih =>
    obtain ⟨name, old⟩ := member
    by_cases hname : name = key
    · simp [put, hname, List.lookup_cons, beq_false_of_ne h]
    · simp [put, hname, List.lookup_cons, ih]

/-- The keys keep their order, and a new one comes last. -/
theorem keys_put (key : String) (value : Value) (members : List (String × Value)) :
    (put key value members).map Prod.fst =
      if key ∈ members.map Prod.fst then members.map Prod.fst
      else members.map Prod.fst ++ [key] := by
  induction members with
  | nil => simp [put]
  | cons member rest ih =>
    by_cases h : member.1 = key
    · simp [put, h]
    · by_cases hk : key ∈ rest.map Prod.fst
      · simp_all [put]
      · have hne : ¬key = member.1 := fun e => h e.symm
        simp_all [put]

/-! ## Compact text -/

/-- The lower-case hexadecimal digit of a number below sixteen. -/
def hexDigit (n : Nat) : Char :=
  Nat.digitChar n

/-- A character as it stands in a string. -/
def quotedChar (c : Char) : List Char :=
  if c = '"' then ['\\', '"']
  else if c = '\\' then ['\\', '\\']
  else if c = '\x08' then ['\\', 'b']
  else if c = '\t' then ['\\', 't']
  else if c = '\n' then ['\\', 'n']
  else if c = '\x0c' then ['\\', 'f']
  else if c = '\r' then ['\\', 'r']
  else if c < ' ' then ['\\', 'u', '0', '0', hexDigit (c.toNat / 16), hexDigit (c.toNat % 16)]
  else [c]

/-- A string in its quotes. -/
def quoted (value : String) : List Char :=
  '"' :: (value.toList.flatMap quotedChar ++ ['"'])

/-- The two words of truth. -/
def boolText (value : Bool) : List Char :=
  if value then "true".toList else "false".toList

/-- The texts with commas between them. -/
def commaSeparated (texts : List (List Char)) : List Char :=
  [','].intercalate texts

mutual

/-- The compact text of a value. -/
def Value.text : Value → List Char
  | .null => "null".toList
  | .bool value => boolText value
  | .number text => text.toList
  | .string value => quoted value
  | .array items => '[' :: (commaSeparated (itemTexts items) ++ [']'])
  | .object members => '{' :: (commaSeparated (memberTexts members) ++ ['}'])

/-- The compact texts of the items of an array. -/
def itemTexts : List Value → List (List Char)
  | [] => []
  | item :: rest => item.text :: itemTexts rest

/-- The compact texts of the members of an object. -/
def memberTexts : List (String × Value) → List (List Char)
  | [] => []
  | (key, value) :: rest => (quoted key ++ ':' :: value.text) :: memberTexts rest

end

/-- The compact text of a value, as a string. -/
def Value.compact (value : Value) : String :=
  String.ofList value.text

/-! ## Building values -/

/-- A whole number. -/
def Value.int (n : Int) : Value :=
  .number (String.ofList (Number.intText n))

/-- A list of strings. -/
def Value.strings (values : List String) : Value :=
  .array (values.map .string)

/-- A value that may be absent, `null` if it is. -/
def Value.optional (encode : α → Value) (value : Option α) : Value :=
  value.elim .null encode

/-- An object with one member: a tag and what it carries. -/
def Value.tagged (tag : String) (body : Value) : Value :=
  .object [(tag, body)]

end SearchQuery.Json
