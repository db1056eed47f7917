import SearchQuery.Proofs.LongerTexts
import SearchQuery.Proofs.QueryDocuments

/-!
# Wrapped documents

A document may hold its query as the member `query` of its root.  A text that is a document without
that member is read the same inside such a member as it is alone: `parse_wrapped`.

The text is read from behind its key as it is alone, for what ends a member ends a number
(`carries_value`).  Inside the member one bracket more is open, so the brackets of the text may nest
one level less.
-/

namespace SearchQuery

open Json

namespace Json

/-- The text of an object with one member, whose value is written as this text. -/
def taggedText (tag : String) (text : List Char) : List Char :=
  '{' :: (memberText tag (':' :: text) ++ ['}'])

theorem length_le_length_taggedText (tag : String) (text : List Char) :
    text.length + 4 ≤ (taggedText tag text).length := by
  simp [taggedText, memberText, quoted]
  omega

/-- An object is read that has one member, if its value is read from before the closing brace. -/
theorem valueLevel_taggedText {purpose : Purpose} {steps : Nat} {reader : Reader Value}
    {text rest : List Char} {v : Value} (hread : reader (text ++ ['}']) = .ok (v, rest ++ ['}']))
    (hrest : skipSpaces rest = []) (hsteps : 2 ≤ steps) (tag : String) :
    valueLevel purpose steps (some reader) (taggedText tag text) = .ok (.tagged tag v, []) := by
  obtain ⟨steps, rfl⟩ := Nat.exists_eq_add_of_le' hsteps
  have hput : putMember reader [] tag (':' :: (text ++ ['}'])) = .ok ([(tag, v)], rest ++ ['}']) :=
    bind_eq_ok.mpr ⟨_, rfl, bind_eq_ok.mpr ⟨_, hread, rfl⟩⟩
  have hspaces : skipSpaces (rest ++ ['}']) = ['}'] := by
    rw [skipSpaces] at hrest ⊢
    rw [List.dropWhile_append, hrest]
    rfl
  have hclosed : nextMember false (rest ++ ['}']) = .ok (.closed []) := by
    rw [nextMember, hspaces]
    rfl
  have hmembers : members purpose (putMember reader) true [] (steps + 2)
      (memberText tag (':' :: text) ++ ['}']) = .ok ([(tag, v)], []) := by
    rw [members, nextMember_true]
    dsimp only
    rw [afterQuote_quoted, List.cons_append]
    dsimp only
    rw [hput]
    dsimp only
    rw [members, hclosed]
  exact bind_eq_ok.mpr ⟨_, hmembers, rfl⟩

/-- A text that is a value is read as the value of the only member of an object, unless its brackets
nest as deep as they may. -/
theorem Value.read_taggedText {text : List Char} {v : Value} (h : Value.read text = .ok v)
    (hnesting : bracketNesting text < maxNesting) (tag : String) :
    Value.read (taggedText tag text) = .ok (.tagged tag v) := by
  have hlength := length_le_length_taggedText tag text
  obtain ⟨⟨v, rest⟩, hvalue, h⟩ := bind_eq_ok.mp h
  dsimp only at h
  split at h
  · next hspaces =>
    obtain rfl := Except.ok.inj h
    have hbrace : Delimited ['}'] := delimited_cons (by decide) []
    have hsteps : text.length ≤ (taggedText tag text).length := by omega
    obtain ⟨taken, htext, hpasses⟩ := carries_value hbrace hsteps _ 126 _ _ _ hvalue
    have hdeep : (Spot.outside 0).deepest taken ≤ 0 + 126 := by
      rw [bracketNesting, htext, Spot.deepest_append, maxNesting] at hnesting
      omega
    have hread := (hpasses 0).2 hdeep
    have htwo : 2 ≤ (taggedText tag text).length := by omega
    exact bind_eq_ok.mpr ⟨_, valueLevel_taggedText hread hspaces htwo tag, rfl⟩
  · cases h

end Json

namespace Document

/-- The text with the wrapper of a query around it. -/
def wrapped (text : String) : String :=
  "\x7b\"query\":" ++ text ++ "\x7d"

theorem toList_wrapped (text : String) :
    (wrapped text).toList = taggedText "query" text.toList := by
  rw [wrapped, String.toList_append, String.toList_append]
  rfl

theorem utf8ByteSize_wrapped (text : String) :
    (wrapped text).utf8ByteSize = text.utf8ByteSize + 10 := by
  have hopening : ("\x7b\"query\":" : String).utf8ByteSize = 9 := by decide
  have hclosing : ("\x7d" : String).utf8ByteSize = 1 := by decide
  rw [wrapped, String.utf8ByteSize_append, String.utf8ByteSize_append, hopening, hclosing]
  omega

/-- The wrapper of a query does not matter: a text that is a document without a member `query` gives
the same query or the same error inside such a member as alone, unless its brackets nest as deep as
they may or the wrapper makes it too long. -/
theorem parse_wrapped {config : Config} {text : String} {root : Value}
    (hroot : Value.read text.toList = .ok root) (hnesting : bracketNesting text.toList ≤ 126)
    (hquery : root.member? "query" = none) (hsize : text.utf8ByteSize + 10 ≤ config.maxInputBytes) :
    parse config (wrapped text) = parse config text := by
  have hread : Value.read (wrapped text).toList = .ok (.tagged "query" root) := by
    rw [toList_wrapped]
    exact Value.read_taggedText hroot (Nat.lt_succ_of_le hnesting) "query"
  have hwrapped : (wrapped text).utf8ByteSize ≤ config.maxInputBytes := by
    rwa [utf8ByteSize_wrapped]
  have hinside : queryOf (.tagged "query" root) = root := rfl
  have halone : queryOf root = root := by rw [queryOf, hquery, Option.getD_none]
  rw [parse_eq_readQuery (ne_empty_of_read hread) hwrapped hread,
    parse_eq_readQuery (ne_empty_of_read hroot) (by omega) hroot, hinside, halone]

/-- A document with spaces, a key twice, numbers that are not written as they are kept, an escaped
quote before a bracket, and a clause that is no query. -/
def looseText : String :=
  " \x7b \"bool\" : 1E5, \"bool\" : \x7b\"must\":[ 0.50e2 , \"\\\"[\"]\x7d \x7d\n"

theorem parse_wrapped_looseText :
    bracketNesting looseText.toList = 3 ∧
      (∃ root, Value.read looseText.toList = .ok root ∧ root.member? "query" = none) ∧
      parse {} (wrapped looseText) = parse {} looseText := by
  have hfound : (Value.read looseText.toList).toOption.any
      (fun root => (root.member? "query").isNone) = true := by
    decide +kernel
  obtain ⟨root, hroot, hquery⟩ : ∃ root, Value.read looseText.toList = .ok root ∧
      root.member? "query" = none := by
    cases hread : Value.read looseText.toList with
    | error fault =>
      rw [hread] at hfound
      cases hfound
    | ok root =>
      rw [hread] at hfound
      exact ⟨root, rfl, Option.isNone_iff_eq_none.mp hfound⟩
  have hnesting : bracketNesting looseText.toList = 3 := by decide +kernel
  have hsize : looseText.utf8ByteSize + 10 ≤ 100 * 1024 := by decide +kernel
  exact ⟨hnesting, ⟨root, hroot, hquery⟩, parse_wrapped hroot (by omega) hquery hsize⟩

end Document

end SearchQuery
