import SearchQuery.Proofs.AcceptedDocuments
import SearchQuery.Proofs.UnreadMembers

/-!
# Numbers and strings of numbers

Two members of a document may say a whole number as a number or as a string of it: the minimum of a
composition, and the edits of a fuzzy clause.  A number goes through a type of 64 bits and is then
narrowed to 32, while a string is read into 32 bits at once.  Both ways lead to the same outcome.

* `SpellsInt` is what a token must be to count, and `readInt32?_eq_some_iff` and
  `readUInt32?_eq_some_iff` say that only what fits into the type counts.
* `NumberForm` lists the forms of a token, and `minimum?_of_numberForm` and `edits?_of_numberForm`
  say that all of them are read as the token.
* `readBool_put_minimum` and `readFuzzy_put_fuzziness` take this to clauses, and `InBody` to clauses
  at any place of a document.
* `readBool_put_minimum_of_ok` and `readFuzzy_put_fuzziness_of_ok` are what becomes of a clause that
  is read without the member.
-/

namespace SearchQuery

open Json

namespace Number

/-! ## Tokens that are whole numbers -/

/-- The text is digits with this value, with a minus sign in front or without. -/
inductive SpellsInt : List Char → Int → Prop
  | digits {digits : List Char} (h : IsDigits digits) : SpellsInt digits (digitsValue 0 digits)
  | minus {digits : List Char} (h : IsDigits digits) :
      SpellsInt ('-' :: digits) (-(digitsValue 0 digits : Int))

/-- No token of a number begins with a plus sign. -/
theorem signed?_iff_spellsInt {text : List Char} (hplus : ∀ rest, text ≠ '+' :: rest) {n : Int} :
    signed? text = some n ↔ SpellsInt text n := by
  rw [signed?_eq_some_iff]
  constructor
  · rintro ⟨_ | _ | _, digits, hdigits, rfl, rfl⟩
    · exact .digits hdigits
    · exact absurd rfl (hplus digits)
    · exact .minus hdigits
  · rintro (hdigits | hdigits)
    · exact ⟨none, _, hdigits, rfl, rfl⟩
    · exact ⟨some true, _, hdigits, rfl, rfl⟩

theorem unsigned?_iff_isDigits {text : List Char} (hplus : ∀ rest, text ≠ '+' :: rest) {n : Nat} :
    unsigned? text = some n ↔ IsDigits text ∧ n = digitsValue 0 text := by
  rw [unsigned?_eq_some_iff]
  constructor
  · rintro ⟨digits, hdigits, rfl | rfl, hn⟩
    · exact ⟨hdigits, hn⟩
    · exact absurd rfl (hplus digits)
  · rintro ⟨hdigits, hn⟩
    exact ⟨text, hdigits, .inl rfl, hn⟩

/-- Only digits and signs are read. -/
theorem signed?_eq_none_of_mem {text : List Char} {c : Char} (h : c ∈ text)
    (hc : isDigit c = false) (hplus : c ≠ '+') (hminus : c ≠ '-') : signed? text = none := by
  rw [Option.eq_none_iff_forall_ne_some]
  intro n hn
  obtain ⟨sign, digits, hdigits, rfl, _⟩ := signed?_eq_some_iff.mp hn
  rcases List.mem_append.mp h with h | h
  · rcases sign with _ | _ | _
    · exact nomatch h
    · exact hplus (List.mem_singleton.mp h)
    · exact hminus (List.mem_singleton.mp h)
  · exact absurd (hdigits.isDigit c h) (by simp [hc])

theorem unsigned?_eq_none_of_mem {text : List Char} {c : Char} (h : c ∈ text)
    (hc : isDigit c = false) (hplus : c ≠ '+') : unsigned? text = none := by
  rw [Option.eq_none_iff_forall_ne_some]
  intro n hn
  obtain ⟨digits, hdigits, rfl | rfl, _⟩ := unsigned?_eq_some_iff.mp hn
  · exact absurd (hdigits.isDigit c h) (by simp [hc])
  · have hmem := List.mem_of_ne_of_mem hplus h
    exact absurd (hdigits.isDigit c hmem) (by simp [hc])

/-- The reader accepts no text with the letter of an exponent. -/
def ReadsNoExponent (read? : List Char → Option α) : Prop :=
  ∀ text letter, letter = 'e' ∨ letter = 'E' → letter ∈ text → read? text = none

theorem not_isDigit_of_isLetter {letter : Char} (h : letter = 'e' ∨ letter = 'E') :
    isDigit letter = false ∧ letter ≠ '+' ∧ letter ≠ '-' := by
  rcases h with rfl | rfl <;> decide

theorem readsNoExponent_readInt32? : ReadsNoExponent readInt32? := by
  intro text letter hletter hmem
  obtain ⟨hdigit, hplus, hminus⟩ := not_isDigit_of_isLetter hletter
  rw [readInt32?, signed?_eq_none_of_mem hmem hdigit hplus hminus]
  rfl

theorem readsNoExponent_readUInt32? : ReadsNoExponent readUInt32? := by
  intro text letter hletter hmem
  obtain ⟨hdigit, hplus, _⟩ := not_isDigit_of_isLetter hletter
  rw [readUInt32?, unsigned?_eq_none_of_mem hmem hdigit hplus]
  rfl

/-! ## Bounded types -/

theorem int32?_eq_some_iff {n : Int} {k : Int32} : int32? n = some k ↔ n = k.toInt := by
  constructor
  · intro h
    have hpow : Nat.pow 2 31 = 2147483648 := rfl
    rw [int32?, hpow] at h
    split at h
    · obtain rfl := Option.some.inj h
      exact (Int32.toInt_ofInt_of_le (by omega) (by omega)).symm
    · cases h
  · rintro rfl
    exact int32?_toInt k

theorem uint32?_eq_some_iff {n : Nat} {k : UInt32} : uint32? n = some k ↔ n = k.toNat := by
  constructor
  · intro h
    have hpow : Nat.pow 2 32 = 4294967296 := rfl
    rw [uint32?, hpow] at h
    split at h
    · obtain rfl := Option.some.inj h
      rw [Int.toNat_natCast, UInt32.toNat_ofNat_of_lt' (show n < 4294967296 by omega)]
    · cases h
  · rintro rfl
    exact uint32?_toNat k

theorem readInt32?_eq_some_iff {text : List Char} (hplus : ∀ rest, text ≠ '+' :: rest)
    {k : Int32} : readInt32? text = some k ↔ SpellsInt text k.toInt := by
  rw [← signed?_iff_spellsInt hplus, readInt32?, Option.bind_eq_bind, Option.bind_eq_some_iff]
  constructor
  · rintro ⟨n, hn, hk⟩
    obtain rfl := int32?_eq_some_iff.mp hk
    exact hn
  · exact fun h => ⟨k.toInt, h, int32?_toInt k⟩

theorem readUInt32?_eq_some_iff {text : List Char} (hplus : ∀ rest, text ≠ '+' :: rest)
    {k : UInt32} :
    readUInt32? text = some k ↔ IsDigits text ∧ k.toNat = digitsValue 0 text := by
  rw [← unsigned?_iff_isDigits hplus, readUInt32?, Option.bind_eq_bind, Option.bind_eq_some_iff]
  constructor
  · rintro ⟨n, hn, hk⟩
    obtain rfl := uint32?_eq_some_iff.mp hk
    exact hn
  · exact fun h => ⟨k.toNat, h, uint32?_toNat k⟩

end Number

namespace Json

/-! ## Forms of a token -/

theorem Numeral.Spells.ne_plus {n : Numeral} (h : n.IsWritten) {token : List Char}
    (htoken : n.Spells token) (rest : List Char) : token ≠ '+' :: rest := by
  obtain ⟨c, more, hc, rfl⟩ := h.exists_eq_cons htoken
  intro heq
  obtain rfl := (List.cons.inj heq).1
  exact absurd hc (by decide)

theorem isNumberText_of_spells {n : Numeral} (h : n.IsWritten) {token : List Char}
    (htoken : n.Spells token) : Number.IsNumberText token := by
  obtain ⟨negative, whole, fraction, exponent⟩ := n
  obtain ⟨spelling, hspelling, rfl⟩ := htoken
  have hnumber {digits : List Char} (hdigits : IsDigits digits) : Number.IsNumberText digits :=
    Number.isNumberText_of_isDigit hdigits.isDigit
  have hexponent : Number.IsNumberText spelling := by
    cases hspelling with
    | none => exact Number.isNumberText_nil
    | signed hletter negative taken =>
      refine ((hnumber (h.exponent negative taken rfl)).cons ?_).cons ?_
      · cases negative <;> decide
      · rcases hletter with rfl | rfl <;> decide
    | unsigned hletter taken =>
      refine (hnumber (h.exponent false taken rfl)).cons ?_
      rcases hletter with rfl | rfl <;> decide
  have hsign : Number.IsNumberText (if negative then ['-'] else []) := by
    cases negative with
    | true => exact Number.isNumberText_nil.cons (by decide)
    | false => exact Number.isNumberText_nil
  have hfraction : Number.IsNumberText (if fraction = [] then [] else '.' :: fraction) := by
    split
    · exact Number.isNumberText_nil
    · next hne => exact (hnumber (h.fraction.resolve_left hne)).cons (by decide)
  exact ((hsign.append (hnumber h.whole)).append hfraction).append hexponent

/-- A number without an exponent has one spelling, and one with an exponent has the letter of it in
every spelling. -/
theorem Numeral.Spells.eq_text_or_mem {n : Numeral} {token : List Char} (h : n.Spells token) :
    token = n.text ∨
      (∃ letter, (letter = 'e' ∨ letter = 'E') ∧ letter ∈ token) ∧ 'e' ∈ n.text := by
  obtain ⟨negative, whole, fraction, exponent⟩ := n
  obtain ⟨spelling, hspelling, rfl⟩ := h
  cases hspelling with
  | none => exact .inl rfl
  | @signed letter hletter | @unsigned letter hletter =>
    refine .inr ⟨⟨letter, hletter, ?_⟩, ?_⟩
    · simp [Numeral.textWith]
    · simp [Numeral.text]

/-- The forms that a token can have in a document: the number itself, whose exponent is written in
one way there, and the token as a string, with blanks about it. -/
inductive NumberForm (n : Numeral) (token : List Char) : Value → Prop
  | number : NumberForm n token (.number (String.ofList n.text))
  | string {before after : List Char} (hbefore : ∀ c ∈ before, Text.isBlank c = true)
      (hafter : ∀ c ∈ after, Text.isBlank c = true) :
      NumberForm n token (.string (String.ofList (before ++ token ++ after)))

/-- A token of a number is read as the number wherever a value is read. -/
theorem value_append {n : Numeral} (h : n.IsWritten) {token : List Char} (htoken : n.Spells token)
    {rest : List Char} (hrest : Delimited rest) (purpose : Purpose) (steps level : Nat) :
    value purpose steps level (token ++ rest) = .ok (.number (String.ofList n.text), rest) := by
  cases level <;> exact valueLevel_number h htoken hrest

end Json

namespace Document

/-- The number is read as every token that spells it. -/
theorem read?_text_of_spells {read? : List Char → Option α} (hread : Number.ReadsNoExponent read?)
    {n : Numeral} {token : List Char} (htoken : n.Spells token) :
    read? n.text = read? token := by
  rcases htoken.eq_text_or_mem with rfl | ⟨⟨letter, hletter, hmem⟩, htext⟩
  · rfl
  · rw [hread token letter hletter hmem, hread n.text 'e' (.inl rfl) htext]

/-- Every form of a token is read as the token. -/
theorem lenientNumber?_of_numberForm {read? : List Char → Option α}
    (hread : Number.ReadsNoExponent read?) {n : Numeral} (h : n.IsWritten) {token : List Char}
    (htoken : n.Spells token) {value : Value} (hvalue : NumberForm n token value) :
    lenientNumber? read? read? value = read? token := by
  cases hvalue with
  | number =>
    rw [lenientNumber?, String.toList_ofList, read?_text_of_spells hread htoken]
  | string hbefore hafter =>
    obtain ⟨c, more, _, hcons⟩ := h.exists_eq_cons htoken
    have hne : token ≠ [] := hcons ▸ List.cons_ne_nil c more
    have htrimmed := (isNumberText_of_spells h htoken).isTrimmed
    rw [lenientNumber?, String.toList_ofList, Text.trim_surrounded htrimmed hne hbefore hafter]

theorem minimum?_of_numberForm {n : Numeral} (h : n.IsWritten) {token : List Char}
    (htoken : n.Spells token) {value : Value} (hvalue : NumberForm n token value) :
    minimum? value = Number.readInt32? token := by
  rw [minimum?_eq]
  exact lenientNumber?_of_numberForm Number.readsNoExponent_readInt32? h htoken hvalue

theorem edits?_of_numberForm {n : Numeral} (h : n.IsWritten) {token : List Char}
    (htoken : n.Spells token) {value : Value} (hvalue : NumberForm n token value) :
    edits? value = Number.readUInt32? token := by
  rw [edits?_eq]
  exact lenientNumber?_of_numberForm Number.readsNoExponent_readUInt32? h htoken hvalue

end Document

/-! ## Members that are numbers -/

namespace Query

/-- The query with another minimum, if it is a composition. -/
def withMinimum (minimum : Option Int32) : Query → Query
  | bool must filter mustNot should _ => bool must filter mustNot should minimum
  | query => query

/-- The query with other edits, if it is a fuzzy clause. -/
def withEdits (edits : Option UInt32) : Query → Query
  | fuzzy field value _ => fuzzy field value edits
  | query => query

end Query

namespace Document

/-- A minimum in the body of a composition has no part in whether it is read, nor in what else is
read of it. -/
theorem readBool_put_minimum (entry : Value → Except DocumentError Query) (value : Value)
    (members : List (String × Value)) :
    readBool entry (.object (put "minimum_should_match" value members)) =
      (readBool entry (.object members)).map
        (Query.withMinimum (minimum? value)) := by
  have hlookup (key : String) (hkey : key ≠ "minimum_should_match") :
      (put "minimum_should_match" value members).lookup key = members.lookup key :=
    lookup_put_of_ne hkey value members
  rw [readBool_object, readBool_object, hlookup "must" (by decide), hlookup "should" (by decide),
    hlookup "must_not" (by decide), hlookup "filter" (by decide), lookup_put_self]
  simp only [map_bind_eq]
  rfl

theorem readFuzzy_put_fuzziness (value : Value) (field : String)
    (members rest : List (String × Value)) :
    readFuzzy (.object ((field, .object (put "fuzziness" value members)) :: rest)) =
      (readFuzzy (.object ((field, .object members) :: rest))).map
        (Query.withEdits (edits? value)) := by
  have hvalue : (put "fuzziness" value members).lookup "value" = members.lookup "value" :=
    lookup_put_of_ne (by decide) value members
  rw [readFuzzy, readFuzzy, fieldAndValue_congr hvalue, readFuzzy.fuzziness?, lookup_put_self]
  simp only [map_bind_eq]
  rfl

/-- A composition that is read without a minimum is read with one, too. -/
theorem readBool_put_minimum_of_ok {entry : Value → Except DocumentError Query}
    {members : List (String × Value)} {query : Query}
    (hok : readBool entry (.object members) = .ok query) (value : Value) :
    ∃ clauses : BoolClauses, query = clauses.build ∧
      readBool entry (.object (put "minimum_should_match" value members)) =
        .ok { clauses with minimumShouldMatch := minimum? value }.build := by
  obtain ⟨_, clauses, _, rfl, _⟩ := readBool_eq_ok hok
  refine ⟨clauses, rfl, ?_⟩
  rw [readBool_put_minimum, hok]
  rfl

/-- So is a fuzzy clause with a number of edits, of the same field and text. -/
theorem readFuzzy_put_fuzziness_of_ok {field : String} {members rest : List (String × Value)}
    {query : Query} (hok : readFuzzy (.object ((field, .object members) :: rest)) = .ok query)
    (value : Value) :
    ∃ text edits, query = .fuzzy field text edits ∧
      readFuzzy (.object ((field, .object (put "fuzziness" value members)) :: rest)) =
        .ok (.fuzzy field text (edits? value)) := by
  have hput := readFuzzy_put_fuzziness value field members rest
  rw [hok] at hput
  obtain ⟨⟨name, text⟩, hpair, ⟨⟩⟩ := bind_eq_ok.mp hok
  obtain ⟨said, hfirst⟩ := firstField_of_fieldAndValue hpair
  obtain ⟨_, _, ⟨⟩⟩ := firstField_eq_ok hfirst
  exact ⟨text, _, rfl, hput⟩

/-! ## Any place of a document -/

/-- A change in the body of one clause, at any place of a value that stands for this. -/
inductive InBody (Change : Kind → Value → Value → Prop) : Place → Value → Value → Prop
  | here {kind : Kind} {body body' : Value} (h : Change kind body body') :
      InBody Change (.body kind) body body'
  | clause {members : List (String × Value)} {kind : Kind} {body body' : Value}
      (hclause : clause? members = some (kind, body)) (h : InBody Change (.body kind) body body') :
      InBody Change .query (.object members) (.object (put kind.name body' members))
  | occurrence {members : List (String × Value)} {occurrence : Occurrence} {value value' : Value}
      (hvalue : members.lookup occurrence.name = some value)
      (h : InBody Change .clauses value value') :
      InBody Change (.body .bool) (.object members) (.object (put occurrence.name value' members))
  | entry {entry entry' : Value} (h : InBody Change .query entry entry')
      (before after : List Value) :
      InBody Change .clauses (.array (before ++ entry :: after))
        (.array (before ++ entry' :: after))
  | single {members members' : List (String × Value)}
      (h : InBody Change .query (.object members) (.object members')) :
      InBody Change .clauses (.object members) (.object members')

/-- Bodies that are read alike are read alike at any place. -/
theorem InBody.sameReading {Change : Kind → Value → Value → Prop}
    (hchange : ∀ kind v w, Change kind v w → SameReading (.body kind) v w) {place : Place}
    {v w : Value} (h : InBody Change place v w) : SameReading place v w := by
  induction h with
  | here h => exact hchange _ _ _ h
  | clause hclause _ ih => exact .clause hclause ih
  | occurrence hvalue _ ih => exact .occurrence hvalue ih
  | entry _ before after ih => exact .entry ih before after
  | single _ ih => exact .single ih

/-- One form of a token in place of another, where a body is searched for a number. -/
inductive NumberChange (n : Numeral) (token : List Char) : Kind → Value → Value → Prop
  | minimum {value value' : Value} (h : NumberForm n token value) (h' : NumberForm n token value')
      (members : List (String × Value)) :
      NumberChange n token .bool (.object (put "minimum_should_match" value members))
        (.object (put "minimum_should_match" value' members))
  | fuzziness {value value' : Value} (h : NumberForm n token value)
      (h' : NumberForm n token value') (field : String) (members rest : List (String × Value)) :
      NumberChange n token .fuzzy
        (.object ((field, .object (put "fuzziness" value members)) :: rest))
        (.object ((field, .object (put "fuzziness" value' members)) :: rest))

section Tokens

variable {n : Numeral} (hwritten : n.IsWritten) {token : List Char} (htoken : n.Spells token)

include hwritten htoken

theorem readBool_numberForm {value : Value} (h : NumberForm n token value)
    (entry : Value → Except DocumentError Query) (members : List (String × Value)) :
    readBool entry (.object (put "minimum_should_match" value members)) =
      (readBool entry (.object members)).map
        (Query.withMinimum (Number.readInt32? token)) := by
  rw [readBool_put_minimum, minimum?_of_numberForm hwritten htoken h]

theorem readFuzzy_numberForm {value : Value} (h : NumberForm n token value) (field : String)
    (members rest : List (String × Value)) :
    readFuzzy (.object ((field, .object (put "fuzziness" value members)) :: rest)) =
      (readFuzzy (.object ((field, .object members) :: rest))).map
        (Query.withEdits (Number.readUInt32? token)) := by
  rw [readFuzzy_put_fuzziness, edits?_of_numberForm hwritten htoken h]

theorem NumberChange.sameReading {kind : Kind} {v w : Value} (h : NumberChange n token kind v w) :
    SameReading (.body kind) v w := by
  intro limit levels
  cases h with
  | minimum h h' members =>
    rw [readClause, readClause, readBool_numberForm hwritten htoken h,
      readBool_numberForm hwritten htoken h']
  | fuzziness h h' field members rest =>
    rw [readClause, readClause, readFuzzy_numberForm hwritten htoken h,
      readFuzzy_numberForm hwritten htoken h']

/-- A token of a number means the same as a number and as a string, whatever blanks stand about it
in the string.

As the minimum of a composition it counts if it is an integer in digits that fits into 32 bits with
a sign, and as the edits of a fuzzy clause if it is one without a minus that fits into 32 bits
without.  Otherwise the clause has no minimum or no edits; it is read nonetheless if it were read
without this member, as the same clause with this minimum or these edits.  At whatever place of a
document the clause stands, another form of the token makes no difference to the query, nor to the
error. -/
theorem parse_eq_of_numberForms :
    (∀ purpose steps level rest, Delimited rest →
      value purpose steps level (token ++ rest) = .ok (.number (String.ofList n.text), rest)) ∧
    (∃ minimum : Option Int32,
      (∀ k, minimum = some k ↔ Number.SpellsInt token k.toInt) ∧
      (Number.readInt64? n.text >>= fun k => Number.int32? k.toInt) = minimum ∧
      ∀ value, NumberForm n token value → ∀ entry members,
        readBool entry (.object (put "minimum_should_match" value members)) =
          (readBool entry (.object members)).map (Query.withMinimum minimum) ∧
        ∀ query, readBool entry (.object members) = .ok query →
          ∃ clauses : BoolClauses, query = clauses.build ∧
            readBool entry (.object (put "minimum_should_match" value members)) =
              .ok { clauses with minimumShouldMatch := minimum }.build) ∧
    (∃ edits : Option UInt32,
      (∀ k, edits = some k ↔ IsDigits token ∧ k.toNat = Number.digitsValue 0 token) ∧
      (Number.readUInt64? n.text >>= fun k => Number.uint32? k.toNat) = edits ∧
      ∀ value, NumberForm n token value → ∀ field members rest,
        readFuzzy (.object ((field, .object (put "fuzziness" value members)) :: rest)) =
          (readFuzzy (.object ((field, .object members) :: rest))).map
            (Query.withEdits edits) ∧
        ∀ query, readFuzzy (.object ((field, .object members) :: rest)) = .ok query →
          ∃ text unset, query = .fuzzy field text unset ∧
            readFuzzy (.object ((field, .object (put "fuzziness" value members)) :: rest)) =
              .ok (.fuzzy field text edits)) ∧
    ∀ (config : Config) (text text' : String) (root root' : Value),
      Value.read text.toList = .ok root → Value.read text'.toList = .ok root' →
      text.utf8ByteSize ≤ config.maxInputBytes → text'.utf8ByteSize ≤ config.maxInputBytes →
      InBody (NumberChange n token) .query (queryOf root) (queryOf root') →
      parse config text = parse config text' := by
  refine ⟨fun purpose steps level rest hrest =>
      value_append hwritten htoken hrest purpose steps level,
    ⟨Number.readInt32? token, ?_, ?_, ?_⟩, ⟨Number.readUInt32? token, ?_, ?_, ?_⟩, ?_⟩
  · intro k
    exact Number.readInt32?_eq_some_iff (htoken.ne_plus hwritten)
  · rw [Number.readInt64?_bind_int32?,
      read?_text_of_spells Number.readsNoExponent_readInt32? htoken]
  · intro value h entry members
    refine ⟨readBool_numberForm hwritten htoken h entry members, fun query hok => ?_⟩
    rw [← minimum?_of_numberForm hwritten htoken h]
    exact readBool_put_minimum_of_ok hok value
  · intro k
    exact Number.readUInt32?_eq_some_iff (htoken.ne_plus hwritten)
  · rw [Number.readUInt64?_bind_uint32?,
      read?_text_of_spells Number.readsNoExponent_readUInt32? htoken]
  · intro value h field members rest
    refine ⟨readFuzzy_numberForm hwritten htoken h field members rest, fun query hok => ?_⟩
    rw [← edits?_of_numberForm hwritten htoken h]
    exact readFuzzy_put_fuzziness_of_ok hok value
  · intro config text text' root root' hroot hroot' hsize hsize' h
    have hsame := h.sameReading fun kind v w => NumberChange.sameReading hwritten htoken
    rw [parse_eq_readQuery (ne_empty_of_read hroot) hsize hroot,
      parse_eq_readQuery (ne_empty_of_read hroot') hsize' hroot']
    exact hsame config.maxNestingDepth config.maxNestingDepth

end Tokens

/-- The document of a fuzzy clause in a composition, with these edits. -/
def fuzzyDocument (edits : Value) : Value :=
  .tagged "bool" (.tagged "must" (.array [.tagged "fuzzy" (.tagged "a" (.object
    [("value", .string "x"), ("fuzziness", edits)]))]))

theorem isWritten_fuzzyDocument {edits : Value} (h : edits.IsWritten) :
    (fuzzyDocument edits).IsWritten := by
  have hclause : (Value.object [("value", .string "x"), ("fuzziness", edits)]).IsWritten :=
    .object (by simp) (by simp [h, Value.isWritten_string])
  have hclauses : (Value.array [.tagged "fuzzy" (.tagged "a" (.object
      [("value", .string "x"), ("fuzziness", edits)]))]).IsWritten :=
    .array (by simp [(hclause.tagged "a").tagged "fuzzy"])
  exact (hclauses.tagged "must").tagged "bool"

theorem readQuery_fuzzyDocument (limit levels : Nat) (edits : Value) :
    readQuery limit (levels + 2) (queryOf (fuzzyDocument edits)) =
      .ok (.bool [.fuzzy "a" "x" (edits? edits)] [] [] [] none) :=
  rfl

/-- Three edits in a composition, as a number and as a string with a blank. -/
theorem parse_eq_of_numberForms_threeEdits :
    (Numeral.ofInt 3).IsWritten ∧ (Numeral.ofInt 3).Spells ['3'] ∧
      InBody (NumberChange (Numeral.ofInt 3) ['3']) .query (queryOf (fuzzyDocument (.int 3)))
        (queryOf (fuzzyDocument (.string " 3"))) ∧
      parse {} (fuzzyDocument (.int 3)).compact =
        parse {} (fuzzyDocument (.string " 3")).compact ∧
      parse {} (fuzzyDocument (.string " 3")).compact =
        .ok (.bool [.fuzzy "a" "x" (some 3)] [] [] [] none) := by
  have hwritten := Numeral.isWritten_ofInt 3
  have htoken : (Numeral.ofInt 3).Spells ['3'] := ⟨[], .none, rfl⟩
  have hfuzzy : NumberChange (Numeral.ofInt 3) ['3'] .fuzzy
      (.tagged "a" (.object [("value", .string "x"), ("fuzziness", .int 3)]))
      (.tagged "a" (.object [("value", .string "x"), ("fuzziness", .string " 3")])) :=
    .fuzziness .number (@NumberForm.string _ _ [' '] [] (List.all_eq_true.mp rfl) nofun) "a"
      [("value", .string "x")] []
  have hchange : InBody (NumberChange (Numeral.ofInt 3) ['3']) .query
      (fuzzyDocument (.int 3)) (fuzzyDocument (.string " 3")) :=
    @InBody.clause _ _ .bool _ _ rfl
      (@InBody.occurrence _ _ .must _ _ rfl
        (.entry (@InBody.clause _ _ .fuzzy _ _ rfl (.here hfuzzy)) [] []))
  have hread {edits : Value} (h : edits.IsWritten)
      (hnesting : (fuzzyDocument edits).nesting ≤ 127) :
      Value.read (fuzzyDocument edits).compact.toList = .ok (fuzzyDocument edits) := by
    rw [Value.compact, String.toList_ofList]
    exact Value.read_text ((isWritten_fuzzyDocument h).of_nesting_le hnesting)
  have hstring := hread (Value.isWritten_string " 3") (by decide)
  have hparse := (parse_eq_of_numberForms hwritten htoken).2.2.2 {} _ _ _ _
    (hread (Value.isWritten_int 3) (by decide)) hstring (by decide +kernel) (by decide +kernel)
    hchange
  have hedits : edits? (.string " 3") = some 3 := by decide
  refine ⟨hwritten, htoken, hchange, hparse, ?_⟩
  rw [parse_eq_readQuery (ne_empty_of_read hstring) (by decide +kernel) hstring,
    readQuery_fuzzyDocument, hedits]

end Document

end SearchQuery
