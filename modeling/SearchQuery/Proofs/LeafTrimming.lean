import SearchQuery.Proofs.Emission

/-!
# Trimming touches leaves only

The text of a composition begins and ends with a sign or a parenthesis, so there is nothing to trim
about it: blanks are lost at the ends of leaves and nowhere else.

* `assembled` is the query string put together from the trimmed texts of the leaves, with no
  trimming at the compositions in between; `text_eq_assembled` says that it is the query string.
* `emitWith_bool` is what follows for a composition.
-/

namespace SearchQuery

open Text

namespace Query

mutual

/-- The text of a query, put together from the trimmed texts of its leaves.  What is put together
is not trimmed again. -/
def assembled (fuzziness : UInt32) : Query → List Char
  | bool must filter mustNot should _ =>
      let signed := (assembledClauses fuzziness must).map ('+' :: ·)
        ++ (assembledClauses fuzziness filter).map ('+' :: ·)
        ++ (assembledClauses fuzziness mustNot).map ('-' :: ·)
      spaceSeparated (signed ++ optionalGroup signed (allAssembled fuzziness should))
  | leaf => trim (leaf.render fuzziness)

/-- The assembled texts of some queries, those of compositions in parentheses. -/
def assembledClauses (fuzziness : UInt32) : List Query → List (List Char)
  | [] => []
  | query :: rest =>
      let text := query.assembled fuzziness
      (if query.kind = .bool then parenthesized text else text) :: assembledClauses fuzziness rest

/-- The assembled texts of some queries. -/
def allAssembled (fuzziness : UInt32) : List Query → List (List Char)
  | [] => []
  | query :: rest => query.assembled fuzziness :: allAssembled fuzziness rest

end

theorem assembledClauses_eq_map {fuzziness : UInt32} {queries : List Query}
    (h : ∀ query ∈ queries, query.text fuzziness = query.assembled fuzziness) :
    assembledClauses fuzziness queries = queries.map (clauseText fuzziness) := by
  induction queries with
  | nil => rfl
  | cons query rest ih =>
    obtain ⟨hquery, hrest⟩ := List.forall_mem_cons.mp h
    rw [assembledClauses, ← hquery, ih hrest, List.map_cons, clauseText]

theorem allAssembled_eq_map {fuzziness : UInt32} {queries : List Query}
    (h : ∀ query ∈ queries, query.text fuzziness = query.assembled fuzziness) :
    allAssembled fuzziness queries = queries.map (text fuzziness) := by
  induction queries with
  | nil => rfl
  | cons query rest ih =>
    obtain ⟨hquery, hrest⟩ := List.forall_mem_cons.mp h
    rw [allAssembled, ← hquery, ih hrest, List.map_cons]

theorem assembled_of_kind_ne {query : Query} (hkind : query.kind ≠ .bool) (fuzziness : UInt32) :
    query.assembled fuzziness = query.text fuzziness := by
  cases query with
  | bool => exact absurd rfl hkind
  | _ => rfl

/-- The query string of a query is put together from those of its leaves. -/
theorem text_eq_assembled (fuzziness : UInt32) (query : Query) :
    query.text fuzziness = query.assembled fuzziness := by
  induction query using Query.induction with
  | leaf query hkind => rw [assembled_of_kind_ne hkind]
  | bool must filter mustNot should minimum hmust hfilter hmustNot hshould =>
    simp only [text_bool, itemTexts, signedTexts, assembled, assembledClauses_eq_map hmust,
      assembledClauses_eq_map hfilter, assembledClauses_eq_map hmustNot,
      allAssembled_eq_map hshould, List.map_map]
    rfl

/-! ## Compositions -/

theorem render_bool_eq_nil_iff {fuzziness : UInt32} {must filter mustNot should : List Query}
    {minimum : Option Int32} :
    (bool must filter mustNot should minimum).render fuzziness = [] ↔
      must = [] ∧ filter = [] ∧ mustNot = [] ∧ should = [] := by
  rw [render_bool, ← @itemTexts_eq_nil_iff fuzziness]
  refine ⟨fun hnil => Decidable.byContradiction fun hne => ?_, fun hnil => ?_⟩
  · exact intercalate_ne_nil hne (fun _ hmem => (isTrimmed_of_mem_itemTexts hmem).2) hnil
  · rw [hnil]
    rfl

/-- The text of a composition neither begins nor ends with a blank, whatever texts are in it, so it
is the query string of the composition as it is.  It is empty only if there are no clauses, the
query string of every clause stands in it as it is, and it is put together from the trimmed texts
of the leaves. -/
theorem emitWith_bool (fuzziness : UInt32) (must filter mustNot should : List Query)
    (minimum : Option Int32) :
    let composition := bool must filter mustNot should minimum
    IsTrimmed (composition.render fuzziness) ∧
      (composition.emitWith fuzziness).toList = composition.render fuzziness ∧
      (composition.render fuzziness = [] ↔
        must = [] ∧ filter = [] ∧ mustNot = [] ∧ should = []) ∧
      (∀ clause ∈ composition.clauses,
        (clause.emitWith fuzziness).toList <:+: composition.render fuzziness) ∧
      composition.render fuzziness = composition.assembled fuzziness := by
  intro composition
  have htrimmed : IsTrimmed (composition.render fuzziness) :=
    isTrimmed_render_bool fuzziness must filter mustNot should minimum
  have htext : composition.text fuzziness = composition.render fuzziness := htrimmed.trim_eq
  refine ⟨htrimmed, ?_, render_bool_eq_nil_iff, fun clause hmem => ?_, ?_⟩
  · rw [toList_emitWith, htext]
  · rw [toList_emitWith, ← htext]
    exact text_infix_of_mem_clauses hmem
  · rw [← htext, text_eq_assembled]

/-- A pattern of blanks, a composition without clauses and a term of two blanks. -/
theorem emitWith_bool_blanks :
    let composition :=
      bool [wildcard "\u00A0f" "\u2003 "] [bool [] [] [] [] none] [] [term "" " \t"] none
    term "" " \t" ∈ composition.clauses ∧
      composition.emitWith 2 = "+f: +() +(:)" ∧
      (composition.emitWith 2).toList = composition.render 2 ∧
      ((term "" " \t").emitWith 2).toList <:+: composition.render 2 := by
  have hmem : term "" " \t" ∈ (bool [wildcard "\u00A0f" "\u2003 "]
      [bool [] [] [] [] none] [] [term "" " \t"] none).clauses :=
    .tail _ (.tail _ (.head _))
  obtain ⟨_, htext, _, hinfix, _⟩ := emitWith_bool 2 [wildcard "\u00A0f" "\u2003 "]
    [bool [] [] [] [] none] [] [term "" " \t"] none
  exact ⟨hmem, by decide +kernel, htext, hinfix _ hmem⟩

end Query

end SearchQuery
