import Mathlib.Logic.Relation
import SearchQuery.Proofs.Emission
import SearchQuery.Proofs.Unescaping

/-!
# Identifiers in their quotes

The identifiers of documents stand in double quotes, but they are not escaped there.  A reader of
the syntax ends a value at the first quote that no backslash covers, and drops the backslashes that
cover.  So it finds the identifiers that were written if none of them has a quote or a backslash,
and otherwise it never does.

* `readIdentifiers` is the reader, `identifierGroup` the text it is made for.
* `ReadAs` says which value a text in quotes is read as: the text itself if nothing in it needs an
  escape (`readAs_self`), and the value that it is the escaped form of (`readAs_escape`).
* `unmarked_of_inQuotes` is the converse: a value that is read as it is written needs no escape.
-/

namespace SearchQuery

open Text

/-! ## Reading quoted values -/

mutual

/-- Reads on inside of quotes: a backslash covers the next character, and the next quote that is
not covered ends the value.  `read` is what is read of the value so far, last character first. -/
def inQuotes (read : List Char) : List Char → Option (List String × List Char)
  | [] => none
  | ['\\'] => none
  | '"' :: rest =>
      (behindQuotes rest).map fun found => (String.ofList read.reverse :: found.1, found.2)
  | '\\' :: c :: rest => inQuotes (c :: read) rest
  | c :: rest => inQuotes (c :: read) rest

/-- Reads on behind a value: one space stands before the next value, and a closing parenthesis
behind the last. -/
def behindQuotes : List Char → Option (List String × List Char)
  | ')' :: rest => some ([], rest)
  | ' ' :: '"' :: rest => inQuotes [] rest
  | _ => none

end

/-- Reads values in double quotes up to the closing parenthesis of their group, and returns them
with what stands behind it. -/
def readIdentifiers : List Char → Option (List String × List Char)
  | ')' :: rest => some ([], rest)
  | '"' :: rest => inQuotes [] rest
  | _ => none

/-- Texts in double quotes, the closing parenthesis of their group, and what stands behind it. -/
def identifierGroup (texts : List (List Char)) (after : List Char) : List Char :=
  spaceSeparated (texts.map doubleQuoted) ++ ')' :: after

/-- What stands behind a value: the other texts, each in quotes, and the end of the group. -/
def behindValue (after : List Char) : List (List Char) → List Char
  | [] => ')' :: after
  | text :: texts => ' ' :: '"' :: (text ++ '"' :: behindValue after texts)

theorem identifierGroup_cons (text : List Char) (texts : List (List Char)) (after : List Char) :
    identifierGroup (text :: texts) after = '"' :: (text ++ '"' :: behindValue after texts) := by
  induction texts generalizing text with
  | nil => simp [identifierGroup, spaceSeparated, doubleQuoted, behindValue]
  | cons next texts ih =>
    have hnext := ih next
    simp only [identifierGroup, spaceSeparated, List.map_cons] at hnext ⊢
    rw [List.intercalate_cons_cons, List.append_assoc, hnext, behindValue]
    simp [doubleQuoted]

/-! ## What a text in quotes is read as -/

/-- A text in quotes is read as the value, whatever was read before and stands behind. -/
def ReadAs (text value : List Char) : Prop :=
  ∀ read rest, inQuotes read (text ++ '"' :: rest) =
    (behindQuotes rest).map fun found => (String.ofList (read.reverse ++ value) :: found.1, found.2)

theorem inQuotes_cons_of_ne {c : Char} (hquote : c ≠ '"') (hbackslash : c ≠ '\\')
    (read rest : List Char) : inQuotes read (c :: rest) = inQuotes (c :: read) rest := by
  rw [inQuotes]
  · rintro rfl
    exact absurd rfl hbackslash
  · rintro rfl
    exact absurd rfl hquote
  · rintro _ _ rfl
    exact absurd rfl hbackslash

theorem readAs_nil : ReadAs [] [] := by
  intro read rest
  rw [List.nil_append, inQuotes, List.append_nil]

theorem ReadAs.cons {c : Char} {text value : List Char} (hquote : c ≠ '"')
    (hbackslash : c ≠ '\\') (h : ReadAs text value) : ReadAs (c :: text) (c :: value) := by
  intro read rest
  rw [List.cons_append, inQuotes_cons_of_ne hquote hbackslash, h, List.reverse_cons,
    List.append_assoc]
  rfl

theorem ReadAs.covered {text value : List Char} (c : Char) (h : ReadAs text value) :
    ReadAs ('\\' :: c :: text) (c :: value) := by
  intro read rest
  rw [List.cons_append, List.cons_append, inQuotes, h, List.reverse_cons, List.append_assoc]
  rfl

/-- Whether nothing in a text means anything in quotes. -/
def Unmarked (text : List Char) : Prop :=
  '"' ∉ text ∧ '\\' ∉ text

theorem unmarked_cons {c : Char} {text : List Char} :
    Unmarked (c :: text) ↔ (c ≠ '"' ∧ c ≠ '\\') ∧ Unmarked text := by
  simp only [Unmarked, List.mem_cons, not_or]
  tauto

theorem readAs_self {text : List Char} (h : Unmarked text) : ReadAs text text := by
  induction text with
  | nil => exact readAs_nil
  | cons c text ih =>
    obtain ⟨⟨hquote, hbackslash⟩, htext⟩ := unmarked_cons.mp h
    exact (ih htext).cons hquote hbackslash

/-- No quote of an escaped text is uncovered, so its marks are read as they are anywhere else. -/
theorem readAs_of_escaped {text : List Char} (h : Escaped text) :
    ∀ value, unescape text = some value → ReadAs text value := by
  induction h with
  | nil =>
    rintro _ ⟨⟩
    exact readAs_nil
  | @covered c rest _ _ ih =>
    intro value hvalue
    obtain ⟨value, hrest, rfl⟩ := Option.map_eq_some_iff.mp hvalue
    exact (ih value hrest).covered c
  | @plain c rest hbackslash hplain _ ih =>
    intro value hvalue
    rw [unescape_cons_of_ne hbackslash] at hvalue
    obtain ⟨value, hrest, rfl⟩ := Option.map_eq_some_iff.mp hvalue
    have hquote : c ≠ '"' := by
      rintro rfl
      exact hplain (by decide)
    exact (ih value hrest).cons hquote hbackslash

theorem readAs_escape (value : List Char) : ReadAs (escape value) value :=
  readAs_of_escaped (escaped_escape value) value (unescape_escape value)

/-! ## Groups of identifiers -/

theorem behindQuotes_behindValue {texts values : List (List Char)}
    (h : List.Forall₂ ReadAs texts values) (after : List Char) :
    behindQuotes (behindValue after texts) = some (values.map String.ofList, after) := by
  induction h with
  | nil => rfl
  | @cons text value texts values hread _ ih =>
    rw [behindValue, behindQuotes, hread, ih]
    rfl

theorem readIdentifiers_identifierGroup {texts values : List (List Char)}
    (h : List.Forall₂ ReadAs texts values) (after : List Char) :
    readIdentifiers (identifierGroup texts after) = some (values.map String.ofList, after) := by
  cases h with
  | nil => rfl
  | @cons text value texts values hread hrest =>
    rw [identifierGroup_cons, readIdentifiers, hread, behindQuotes_behindValue hrest]
    rfl

/-! ## Values that are read as they are written -/

theorem reverse_prefix_of_reverse_cons_prefix {c : Char} {read value : List Char}
    (h : (c :: read).reverse <+: value) : read.reverse <+: value := by
  rw [List.reverse_cons] at h
  exact (List.prefix_append _ _).trans h

theorem toList_of_inQuotes_quote {read rest after : List Char} {value : String}
    {values : List String} (h : inQuotes read ('"' :: rest) = some (value :: values, after)) :
    value.toList = read.reverse := by
  rw [inQuotes] at h
  obtain ⟨found, _, hfound⟩ := Option.map_eq_some_iff.mp h
  obtain ⟨⟨rfl, _⟩, _⟩ := hfound
  exact String.toList_ofList

/-- The first value that is read begins with what was read of it before. -/
theorem prefix_of_inQuotes {read text after : List Char} {value : String} {values : List String}
    (h : inQuotes read text = some (value :: values, after)) :
    read.reverse <+: value.toList := by
  induction read, text using inQuotes.induct with
  | motive_2 => exact True
  | case1 read => exact nomatch h
  | case2 read => exact nomatch h
  | case3 read rest => exact toList_of_inQuotes_quote h ▸ List.prefix_rfl
  | case4 read c rest ih => exact reverse_prefix_of_reverse_cons_prefix (ih h)
  | case5 read c rest hlone hquote hcover ih =>
    rw [inQuotes_cons_of_ne hquote] at h
    · exact reverse_prefix_of_reverse_cons_prefix (ih h)
    · rintro rfl
      cases rest with
      | nil => exact hlone rfl rfl
      | cons d rest => exact hcover d rest rfl rfl
  | _ => trivial

/-- The character that is read next is the next character of the value. -/
theorem head?_of_inQuotes {c : Char} {read text after rest : List Char} {value : String}
    {values : List String} (h : inQuotes (c :: read) text = some (value :: values, after))
    (hvalue : value.toList = read.reverse ++ rest) : rest.head? = some c := by
  obtain ⟨tail, htail⟩ := prefix_of_inQuotes h
  rw [hvalue, List.reverse_cons, List.append_assoc, List.append_cancel_left_eq] at htail
  rw [← htail]
  rfl

/-- A backslash in quotes is dropped, so a value that has one is not read as it was written.  With
`dropped` many of them dropped before, so many stand before the text in what is still to be read of
the value; the two never meet again, as reading takes from the value no more than a character for
each that it takes from the text. -/
theorem unmarked_of_inQuotes {text : List Char} {dropped : Nat} {read rest after : List Char}
    {value : String} {values : List String}
    (h : inQuotes read (text ++ '"' :: rest) = some (value :: values, after))
    (hvalue : value.toList = read.reverse ++ (List.replicate dropped '\\' ++ text)) :
    dropped = 0 ∧ Unmarked text := by
  induction text using unescape.induct generalizing dropped read with
  | case1 =>
    have hread := toList_of_inQuotes_quote h
    rw [hvalue, List.append_right_eq_self, List.append_nil, List.replicate_eq_nil_iff] at hread
    exact ⟨hread, nofun, nofun⟩
  | case2 =>
    have hnext := head?_of_inQuotes h hvalue
    cases dropped <;> simp [List.replicate_succ] at hnext
  | case3 c text ih =>
    -- The character behind the backslash must be one too, and is one more that is dropped.
    have hnext := head?_of_inQuotes h hvalue
    obtain rfl : c = '\\' := by
      cases dropped <;> exact (Option.some.inj hnext).symm
    have hmarks : List.replicate dropped '\\' ++ '\\' :: '\\' :: text =
        '\\' :: (List.replicate (dropped + 1) '\\' ++ text) := by
      have hall := @List.replicate_append_replicate dropped Char '\\' 2
      calc
        _ = List.replicate dropped '\\' ++ List.replicate 2 '\\' ++ text := by simp
        _ = _ := by rw [hall]; rfl
    rw [hmarks, List.append_cons, ← List.reverse_cons] at hvalue
    exact absurd (ih h hvalue).1 (Nat.succ_ne_zero dropped)
  | case4 c text hlone hcover ih =>
    have hbackslash : c ≠ '\\' := by
      rintro rfl
      cases text with
      | nil => exact hlone rfl rfl
      | cons d text => exact hcover d text rfl rfl
    have hquote : c ≠ '"' := by
      rintro rfl
      have hread := toList_of_inQuotes_quote h
      rw [hvalue] at hread
      simp at hread
    rw [List.cons_append, inQuotes_cons_of_ne hquote hbackslash] at h
    have hnext := head?_of_inQuotes h hvalue
    cases dropped with
    | succ dropped => exact absurd (Option.some.inj hnext).symm hbackslash
    | zero =>
      have hrest : value.toList = (c :: read).reverse ++ (List.replicate 0 '\\' ++ text) := by
        simpa using hvalue
      exact ⟨rfl, unmarked_cons.mpr ⟨⟨hquote, hbackslash⟩, (ih h hrest).2⟩⟩

theorem behindQuotes_of_inQuotes {value : String} {values : List String} {rest after : List Char}
    (h : inQuotes [] (value.toList ++ '"' :: rest) = some (value :: values, after)) :
    Unmarked value.toList ∧ behindQuotes rest = some (values, after) := by
  obtain ⟨-, hvalue⟩ := @unmarked_of_inQuotes _ 0 _ _ _ _ _ h rfl
  rw [readAs_self hvalue] at h
  obtain ⟨⟨values', after'⟩, hrest, hfound⟩ := Option.map_eq_some_iff.mp h
  simp only [Prod.mk.injEq, List.cons.injEq] at hfound
  obtain ⟨⟨-, rfl⟩, rfl⟩ := hfound
  exact ⟨hvalue, hrest⟩

theorem unmarked_of_behindQuotes {values : List String} {after rest : List Char}
    (h : behindQuotes (behindValue after (values.map String.toList)) = some (values, rest)) :
    ∀ value ∈ values, Unmarked value.toList := by
  induction values with
  | nil => exact nofun
  | cons value values ih =>
    obtain ⟨hvalue, hrest⟩ := behindQuotes_of_inQuotes h
    exact List.forall_mem_cons.mpr ⟨hvalue, ih hrest⟩

theorem unmarked_of_readIdentifiers {values : List String} {after rest : List Char}
    (h : readIdentifiers (identifierGroup (values.map String.toList) after) =
      some (values, rest)) : ∀ value ∈ values, Unmarked value.toList := by
  cases values with
  | nil => exact nofun
  | cons value values =>
    rw [List.map_cons, identifierGroup_cons] at h
    obtain ⟨hvalue, hrest⟩ := behindQuotes_of_inQuotes h
    exact List.forall_mem_cons.mpr ⟨hvalue, unmarked_of_behindQuotes hrest⟩

/-! ## Emitted identifiers -/

namespace Query

theorem text_ids (fuzziness : UInt32) (values : List String) :
    (ids values).text fuzziness =
      "_id:(".toList ++ identifierGroup (values.map String.toList) [] := by
  have hrender : (ids values).render fuzziness = '_' ::
      ("id:(".toList ++ spaceSeparated ((values.map String.toList).map doubleQuoted) ++ [')']) := by
    simp [render, onField, fieldName, parenthesized, List.map_map, Function.comp_def]
  rw [text, hrender, (isTrimmed_between (by decide) (by decide) _).trim_eq, identifierGroup]
  simp

theorem text_infix_of_part {fuzziness : UInt32} {part root : Query}
    (h : Relation.ReflTransGen (fun part query => part ∈ query.clauses) part root) :
    part.text fuzziness <:+: root.text fuzziness := by
  induction h with
  | refl => exact List.infix_rfl
  | tail _ hmem ih => exact ih.trans (text_infix_of_mem_clauses hmem)

theorem map_ofList_map_toList (values : List String) :
    (values.map String.toList).map String.ofList = values := by
  simp [Function.comp_def]

/-- The identifiers of a clause stand in quotes in the query string of every query that the clause
is part of, and a reader of quoted values gets exactly these back if and only if none of them has a
quote or a backslash.  Were they escaped, as the other values are, it would get them back whatever
they are. -/
theorem readIdentifiers_emitWith {values : List String} {root : Query}
    (h : Relation.ReflTransGen (fun part query => part ∈ query.clauses) (ids values) root)
    (fuzziness : UInt32) :
    ∃ before after : List Char,
      (root.emitWith fuzziness).toList =
        before ++ "_id:(".toList ++ identifierGroup (values.map String.toList) after ∧
      ((readIdentifiers (identifierGroup (values.map String.toList) after)).map Prod.fst =
          some values ↔ ∀ value ∈ values, '"' ∉ value.toList ∧ '\\' ∉ value.toList) ∧
      readIdentifiers (identifierGroup (values.map fun value => escape value.toList) after) =
        some (values, after) := by
  obtain ⟨before, after, htext⟩ := @text_infix_of_part fuzziness _ _ h
  refine ⟨before, after, ?_, ⟨fun hread => ?_, fun hvalues => ?_⟩, ?_⟩
  · rw [toList_emitWith, ← htext, text_ids]
    simp [identifierGroup]
  · obtain ⟨⟨_, rest⟩, hread, rfl⟩ := Option.map_eq_some_iff.mp hread
    exact unmarked_of_readIdentifiers hread
  · have hself : List.Forall₂ ReadAs (values.map String.toList) (values.map String.toList) :=
      List.forall₂_same.mpr
        (List.forall_mem_map.mpr fun value hmem => readAs_self (hvalues value hmem))
    rw [readIdentifiers_identifierGroup hself, Option.map_some, map_ofList_map_toList]
  · have hescape : List.Forall₂ ReadAs (values.map fun value => escape value.toList)
        (values.map String.toList) := by
      rw [List.forall₂_map_left_iff, List.forall₂_map_right_iff, List.forall₂_same]
      exact fun value _ => readAs_escape value.toList
    rw [readIdentifiers_identifierGroup hescape, map_ofList_map_toList]

/-- A composition in a composition, and an identifier with a space. -/
theorem readIdentifiers_emitWith_nested :
    let values := ["1", "a b"]
    let root := bool [term "lang" "en"] [] [bool [] [] [] [ids values] none] [] none
    Relation.ReflTransGen (fun part query => part ∈ query.clauses) (ids values) root ∧
      root.emitWith 2 = "+lang:en -((_id:(\"1\" \"a b\")))" ∧
      ∃ before after : List Char,
        (root.emitWith 2).toList =
          before ++ "_id:(".toList ++ identifierGroup (values.map String.toList) after ∧
        (readIdentifiers (identifierGroup (values.map String.toList) after)).map Prod.fst =
          some values := by
  have hpart : Relation.ReflTransGen (fun part query => part ∈ query.clauses) (ids ["1", "a b"])
      (bool [term "lang" "en"] [] [bool [] [] [] [ids ["1", "a b"]] none] [] none) :=
    .tail (.single (List.mem_singleton_self _)) (List.mem_cons_of_mem _ (List.mem_singleton_self _))
  obtain ⟨before, after, htext, hread, _⟩ := readIdentifiers_emitWith hpart 2
  exact ⟨hpart, rfl, before, after, htext, hread.mpr (by decide)⟩

/-- The quote in an identifier ends the value, and what stands behind it does not belong there. -/
theorem readIdentifiers_emit_quote :
    (ids ["a\"b"]).emit = "_id:(\"a\"b\")" ∧
      (ids ["a\"b"]).emit.toList = "_id:(".toList ++ identifierGroup ["a\"b".toList] [] ∧
      readIdentifiers (identifierGroup ["a\"b".toList] []) = none := by
  refine ⟨by rfl, by rfl, by decide⟩

end Query

end SearchQuery
