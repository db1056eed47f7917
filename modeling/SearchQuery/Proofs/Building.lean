import SearchQuery.Proofs.Depth
import SearchQuery.Proofs.Emission

/-!
# Building step by step

A composition is built by adding clauses and setting its minimum, a range by setting its bounds, in
any order and any number of times.  What comes of the steps of one kind does not depend on where
the steps of other kinds stand among them.

* `foldl_or` is for what a step replaces: the last step of a kind counts.  It serves the minimum of
  a composition (`minimumShouldMatch_ofSteps`) and the bounds of a range (`get?_ofBounds`).
* `get_step` and `depth_build_step` say what a step does to a composition, `get_ofSteps` and
  `depth_ofSteps` what a run of steps does.
* `toList_emitWith_ofBounds` is the query string of a range by its last bounds.
-/

namespace SearchQuery

open Text

/-! ## The last step of a kind -/

variable {α β σ : Type}

theorem filterMap_cons_eq (value? : α → Option β) (step : α) (steps : List α) :
    (step :: steps).filterMap value? = (value? step).toList ++ steps.filterMap value? := by
  cases hvalue : value? step with
  | none => rw [List.filterMap_cons_none hvalue, Option.toList_none, List.nil_append]
  | some value => rw [List.filterMap_cons_some hvalue, Option.toList_some, List.singleton_append]

theorem getLast?_toList (value : Option β) : value.toList.getLast? = value := by
  cases value <;> rfl

/-- Where every step either replaces what is seen or leaves it as it is, the last replacement is
seen in the end. -/
theorem foldl_or (view : σ → Option β) {next : σ → α → σ} {value? : α → Option β}
    (h : ∀ state step, view (next state step) = (value? step).or (view state))
    (steps : List α) (state : σ) :
    view (steps.foldl next state) = (steps.filterMap value?).getLast?.or (view state) := by
  induction steps generalizing state with
  | nil => rfl
  | cons step steps ih =>
    rw [List.foldl_cons, ih, h, filterMap_cons_eq, List.getLast?_append, Option.or_assoc,
      getLast?_toList]

/-! ## Compositions -/

namespace Query

theorem depthAll_append (queries queries' : List Query) :
    depthAll (queries ++ queries') =
      max (depthAll queries) (depthAll queries') := by
  induction queries with
  | nil => simp [depthAll]
  | cons query rest ih => rw [List.cons_append, depthAll, ih, depthAll, Nat.max_assoc]

theorem depthAll_eq_foldr (queries : List Query) :
    depthAll queries = (queries.map depth).foldr max 0 := by
  induction queries with
  | nil => rfl
  | cons query rest ih => rw [depthAll, ih, List.map_cons, List.foldr_cons]

end Query

/-- A step of building a composition. -/
inductive BuildStep where
  | add (occurrence : Occurrence) (query : Query)
  | setMinimum (n : Int32)

namespace BuildStep

/-- The clause that a step adds. -/
def query? : BuildStep → Option Query
  | add _ query => some query
  | setMinimum _ => none

/-- The clause that a step adds to those of one occurrence. -/
def queryOf? (occurrence : Occurrence) : BuildStep → Option Query
  | add other query => if other = occurrence then some query else none
  | setMinimum _ => none

/-- The minimum that a step sets. -/
def minimum? : BuildStep → Option Int32
  | add .. => none
  | setMinimum n => some n

end BuildStep

namespace BoolClauses

/-- The composition after one more step. -/
def step (clauses : BoolClauses) : BuildStep → BoolClauses
  | .add occurrence query => clauses.add occurrence query
  | .setMinimum n => clauses.setMinimum n

/-- The composition that some steps build. -/
def ofSteps (steps : List BuildStep) : BoolClauses :=
  steps.foldl step {}

/-- A step puts its clause behind those of its occurrence and leaves the other occurrences alone. -/
theorem get_step (clauses : BoolClauses) (step : BuildStep) (occurrence : Occurrence) :
    (clauses.step step).get occurrence =
      clauses.get occurrence ++ (step.queryOf? occurrence).toList := by
  cases step with
  | setMinimum n => cases occurrence <;> exact (List.append_nil _).symm
  | add other query =>
    rw [BoolClauses.step, add, BuildStep.queryOf?]
    split
    · next heq =>
      subst heq
      rw [get_set_self]
      rfl
    · next hne => rw [get_set_of_ne _ (Ne.symm hne), Option.toList_none, List.append_nil]

theorem minimumShouldMatch_step (clauses : BoolClauses) (step : BuildStep) :
    (clauses.step step).minimumShouldMatch = step.minimum?.or clauses.minimumShouldMatch := by
  cases step with
  | setMinimum n => rfl
  | add occurrence query => cases occurrence <;> rfl

/-- A composition is as deep as before, or one level deeper than its new clause. -/
theorem depth_build_step (clauses : BoolClauses) (step : BuildStep) :
    (clauses.step step).build.depth =
      max clauses.build.depth (1 + Query.depthAll step.query?.toList) := by
  have hpos := clauses.build.depth_pos
  cases step with
  | setMinimum n =>
    change clauses.build.depth = max clauses.build.depth 1
    omega
  | add occurrence query =>
    cases occurrence <;>
      simp only [BoolClauses.step, add, set, get, build, Query.depth, Query.depthAll_append,
        BuildStep.query?, Option.toList_some] <;>
      omega

/-! ### Runs of steps -/

theorem get_foldl_step (steps : List BuildStep) (clauses : BoolClauses) (occurrence : Occurrence) :
    (steps.foldl step clauses).get occurrence =
      clauses.get occurrence ++ steps.filterMap (BuildStep.queryOf? occurrence) := by
  induction steps generalizing clauses with
  | nil => simp
  | cons first steps ih =>
    rw [List.foldl_cons, ih, get_step, List.append_assoc, filterMap_cons_eq]

theorem depth_build_foldl_step (steps : List BuildStep) (clauses : BoolClauses) :
    (steps.foldl step clauses).build.depth =
      max clauses.build.depth (1 + Query.depthAll (steps.filterMap BuildStep.query?)) := by
  induction steps generalizing clauses with
  | nil =>
    have hpos := clauses.build.depth_pos
    rw [List.foldl_nil, List.filterMap_nil, Query.depthAll]
    omega
  | cons first steps ih =>
    rw [List.foldl_cons, ih, depth_build_step, filterMap_cons_eq, Query.depthAll_append]
    omega

/-- The clauses of an occurrence are those that were added to it, in the order of the steps. -/
theorem get_ofSteps (steps : List BuildStep) (occurrence : Occurrence) :
    (ofSteps steps).get occurrence = steps.filterMap (BuildStep.queryOf? occurrence) := by
  rw [ofSteps, get_foldl_step]
  cases occurrence <;> rfl

/-- The minimum is the one that was set last. -/
theorem minimumShouldMatch_ofSteps (steps : List BuildStep) :
    (ofSteps steps).minimumShouldMatch = (steps.filterMap BuildStep.minimum?).getLast? := by
  rw [ofSteps, foldl_or BoolClauses.minimumShouldMatch minimumShouldMatch_step]
  exact Option.or_none

/-- A composition is one level deeper than the deepest clause that was added. -/
theorem depth_build_ofSteps (steps : List BuildStep) :
    (ofSteps steps).build.depth =
      1 + ((steps.filterMap BuildStep.query?).map Query.depth).foldr max 0 := by
  have hempty : ({} : BoolClauses).build.depth = 1 := rfl
  rw [ofSteps, depth_build_foldl_step, hempty, Query.depthAll_eq_foldr]
  omega

/-- Compositions with the same clauses and the same minimum are the same. -/
theorem ext_get {clauses clauses' : BoolClauses}
    (hget : ∀ occurrence, clauses.get occurrence = clauses'.get occurrence)
    (hminimum : clauses.minimumShouldMatch = clauses'.minimumShouldMatch) : clauses = clauses' := by
  obtain ⟨hmust, hfilter, hmustNot, hshould⟩ := Occurrence.forall_iff.mp hget
  cases clauses
  cases clauses'
  simp_all [get]

end BoolClauses

/-! ## Ranges -/

namespace Range

/-- The value that a step sets a bound to. -/
def valueOf? (bound : Bound) (step : Bound × String) : Option String :=
  if step.1 = bound then some step.2 else none

/-- The last value that some steps set a bound to. -/
def last? (steps : List (Bound × String)) (bound : Bound) : Option String :=
  (steps.filterMap (valueOf? bound)).getLast?

theorem get?_set (range : Range) (step : Bound × String) (bound : Bound) :
    (range.set step.1 step.2).get? bound = (valueOf? bound step).or (range.get? bound) := by
  rw [valueOf?]
  split
  · next heq =>
    subst heq
    exact get?_set_self range step.1 step.2
  · next hne => exact get?_set_of_ne range (Ne.symm hne) step.2

theorem get?_ofBounds (field : String) (steps : List (Bound × String)) (bound : Bound) :
    (ofBounds field steps).get? bound = last? steps bound := by
  have hview (range : Range) (step : Bound × String) :
      get? (range.set step.1 step.2) bound = (valueOf? bound step).or (range.get? bound) :=
    get?_set range step bound
  rw [ofBounds, foldl_or (get? · bound) hview, last?]
  cases bound <;> exact Option.or_none

theorem field_ofBounds (field : String) (steps : List (Bound × String)) :
    (ofBounds field steps).field = field := by
  suffices h : ∀ range : Range,
      (steps.foldl (fun range step => range.set step.1 step.2) range).field = range.field from
    h { field }
  induction steps with
  | nil => exact fun range => rfl
  | cons step steps ih => exact fun range => (ih _).trans (field_set range step.1 step.2)

/-- The query string of a range: the field and one interval, whose ends are the last values of the
bounds. -/
theorem toList_emitWith_ofBounds (fuzziness : UInt32) (field : String)
    (steps : List (Bound × String)) :
    ((Query.range (ofBounds field steps)).emitWith fuzziness).toList =
      trimStart (fieldName field) ++
        [':', if (last? steps .gt).isSome then '{' else '['] ++
        (((last? steps .gte).or (last? steps .gt)).getD "*").toList ++ " TO ".toList ++
        (((last? steps .lte).or (last? steps .lt)).getD "*").toList ++
        [if (last? steps .lt).isSome then '}' else ']'] := by
  have hend (preferred other : Option String) :
      intervalEnd preferred other = ((preferred.or other).getD "*").toList := by
    rw [intervalEnd]
    cases preferred.or other <;> rfl
  have htrimmed (opening closing : Bool) (low high : List Char) :
      IsTrimmed (interval (if opening then '{' else '[') low high
        (if closing then '}' else ']')) :=
    isTrimmed_between (by cases opening <;> decide) (by cases closing <;> decide) _
  have hrender : (ofBounds field steps).render =
      onField field (interval (if (last? steps .gt).isSome then '{' else '[')
        (intervalEnd (last? steps .gte) (last? steps .gt))
        (intervalEnd (last? steps .lte) (last? steps .lt))
        (if (last? steps .lt).isSome then '}' else ']')) := by
    simp only [← get?_ofBounds field steps]
    rw [render, field_ofBounds]
    rfl
  rw [Query.toList_emitWith, Query.text, Query.render, hrender, Query.trim_onField,
    (htrimmed _ _ _ _).trimEnd_eq, interval, hend, hend]
  simp

end Range

/-! ## Both -/

/-- Every list of clauses is made of the steps of its occurrence, in their order, and the minimum of
a composition and the bounds of a range are those set last.  So steps of different kinds may change
places: the same steps of each kind make the same query, with the same clauses and the same query
string. -/
theorem building_by_kind :
    (∀ steps : List BuildStep,
      (∀ occurrence, (BoolClauses.ofSteps steps).get occurrence =
        steps.filterMap (BuildStep.queryOf? occurrence)) ∧
      (BoolClauses.ofSteps steps).build.clauses =
        Occurrence.all.flatMap (fun occurrence =>
          steps.filterMap (BuildStep.queryOf? occurrence)) ∧
      (BoolClauses.ofSteps steps).minimumShouldMatch =
        (steps.filterMap BuildStep.minimum?).getLast? ∧
      ∀ n, (BoolClauses.ofSteps (steps.take n)).build.depth =
        1 + (((steps.take n).filterMap BuildStep.query?).map Query.depth).foldr max 0) ∧
    (∀ steps steps' : List BuildStep,
      (∀ occurrence, steps.filterMap (BuildStep.queryOf? occurrence) =
        steps'.filterMap (BuildStep.queryOf? occurrence)) →
      (steps.filterMap BuildStep.minimum?).getLast? =
        (steps'.filterMap BuildStep.minimum?).getLast? →
      let query := (BoolClauses.ofSteps steps).build
      let query' := (BoolClauses.ofSteps steps').build
      query = query' ∧ query.clauses = query'.clauses ∧
        ∀ fuzziness, query.emitWith fuzziness = query'.emitWith fuzziness) ∧
    (∀ (field : String) (steps : List (Bound × String)) (fuzziness : UInt32),
      let last := Range.last? steps
      ((Query.range (Range.ofBounds field steps)).emitWith fuzziness).toList =
        trimStart (fieldName field) ++ [':', if (last .gt).isSome then '{' else '['] ++
          (((last .gte).or (last .gt)).getD "*").toList ++ " TO ".toList ++
          (((last .lte).or (last .lt)).getD "*").toList ++
          [if (last .lt).isSome then '}' else ']']) ∧
    ∀ (field : String) (steps steps' : List (Bound × String)) (fuzziness : UInt32),
      (∀ bound, Range.last? steps bound = Range.last? steps' bound) →
      (Query.range (Range.ofBounds field steps)).emitWith fuzziness =
        (Query.range (Range.ofBounds field steps')).emitWith fuzziness := by
  refine ⟨fun steps => ⟨BoolClauses.get_ofSteps steps, ?_,
    BoolClauses.minimumShouldMatch_ofSteps steps,
    fun n => BoolClauses.depth_build_ofSteps (steps.take n)⟩, ?_, ?_, ?_⟩
  · simp only [← BoolClauses.get_ofSteps]
    simp [BoolClauses.build, Query.clauses, Occurrence.all, BoolClauses.get]
  · intro steps steps' hqueries hminimum query query'
    have hsame : BoolClauses.ofSteps steps = BoolClauses.ofSteps steps' := by
      refine BoolClauses.ext_get (fun occurrence => ?_) ?_
      · rw [BoolClauses.get_ofSteps, BoolClauses.get_ofSteps, hqueries]
      · rw [BoolClauses.minimumShouldMatch_ofSteps, BoolClauses.minimumShouldMatch_ofSteps,
          hminimum]
    have hquery : query = query' := congrArg BoolClauses.build hsame
    exact ⟨hquery, by rw [hquery], fun fuzziness => by rw [hquery]⟩
  · exact fun field steps fuzziness => Range.toList_emitWith_ofBounds fuzziness field steps
  · intro field steps steps' fuzziness hlast
    rw [← String.toList_inj, Range.toList_emitWith_ofBounds, Range.toList_emitWith_ofBounds]
    simp only [hlast]

/-- Four clauses and two minimums in two orders, and a range that has a bound set twice. -/
theorem building_by_kind_interleaved :
    let steps : List BuildStep :=
      [.add .should (.term "a" "x"), .setMinimum 7,
        .add .must (.bool [.existing "b"] [] [] [] none), .add .should (.existing "c"),
        .setMinimum 1, .add .filter (.ids ["1"])]
    let steps' : List BuildStep :=
      [.add .filter (.ids ["1"]), .setMinimum 1, .add .must (.bool [.existing "b"] [] [] [] none),
        .add .should (.term "a" "x"), .add .should (.existing "c")]
    let bounds : List (Bound × String) := [(.gt, "1"), (.lte, "8"), (.gte, "2"), (.lte, "9")]
    let bounds' : List (Bound × String) := [(.lte, "9"), (.gte, "2"), (.gt, "1")]
    (∀ occurrence, steps.filterMap (BuildStep.queryOf? occurrence) =
        steps'.filterMap (BuildStep.queryOf? occurrence)) ∧
      (steps.filterMap BuildStep.minimum?).getLast? =
        (steps'.filterMap BuildStep.minimum?).getLast? ∧
      (BoolClauses.ofSteps steps).build = (BoolClauses.ofSteps steps').build ∧
      (BoolClauses.ofSteps (steps.take 2)).build.depth = 2 ∧
      (BoolClauses.ofSteps (steps.take 3)).build.depth = 3 ∧
      (∀ bound, Range.last? bounds bound = Range.last? bounds' bound) ∧
      (Query.range (Range.ofBounds "n" bounds)).emitWith 2 =
        (Query.range (Range.ofBounds "n" bounds')).emitWith 2 := by
  intro steps steps' bounds bounds'
  have hqueries : ∀ occurrence, steps.filterMap (BuildStep.queryOf? occurrence) =
      steps'.filterMap (BuildStep.queryOf? occurrence) := by
    intro occurrence
    cases occurrence <;> rfl
  have hminimum : (steps.filterMap BuildStep.minimum?).getLast? =
      (steps'.filterMap BuildStep.minimum?).getLast? := rfl
  have hlast : ∀ bound, Range.last? bounds bound = Range.last? bounds' bound := by
    intro bound
    cases bound <;> rfl
  obtain ⟨hruns, hsame, _, hranges⟩ := building_by_kind
  obtain ⟨_, _, _, hdepth⟩ := hruns steps
  exact ⟨hqueries, hminimum, (hsame steps steps' hqueries hminimum).1, hdepth 2, hdepth 3, hlast,
    hranges "n" bounds bounds' 2 hlast⟩

end SearchQuery
