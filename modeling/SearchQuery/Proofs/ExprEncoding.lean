import SearchQuery.Predicate.Encoding
import SearchQuery.Predicate.Translation
import SearchQuery.Proofs.FormReading

/-!
# Reading expressions back from JSON

An expression without floats is read from its JSON text as what it is, up to the depth that
brackets may nest to (`read_text_toJson_of_hasNoFloat`).  A float is left out because a number that
is read as a float goes through one rounding more than the text has.

* `Expr.nesting` says how deep the brackets nest.  The operands of a node stand two brackets inside
  the node, the arguments of a call three.
* `Literal.decodes_form` reads a constant back, `decodes_binaryForm`, `decodes_unaryForm` and
  `decodes_callForm` the records of nodes.
* `decodes_form` is the induction over expressions.
-/

namespace SearchQuery

open Json

variable {level steps : Nat}

/-! ## Constants and operators -/

theorem Literal.decodes_form {value : Literal} (hfloat : ∀ x, value ≠ .float x) :
    Decodes level (Literal.form level) value.toJson value := by
  cases value with
  | null => exact decodes_choiceForm_bare rfl
  | bool value =>
    exact decodes_choiceForm_tagged rfl fun _ _ => (decodes_boolForm value).map Literal.bool
  | integer value =>
    have hlow := value.le_toInt
    have hhigh := value.toInt_lt
    refine decodes_choiceForm_tagged rfl fun below _ => Decodes.map ?_ Literal.integer
    exact decodes_wholeForm (by omega) (by omega) (Number.int64?_toInt value)
  | float x => exact absurd rfl (hfloat x)
  | text value =>
    exact decodes_choiceForm_tagged rfl fun _ _ => (decodes_stringForm value).map Literal.text

theorem BinaryOp.decodes_form (op : BinaryOp) :
    Decodes level (BinaryOp.form level) (.string op.name) op :=
  decodes_choiceForm_bare (by rw [ofName?_name]; rfl)

theorem UnaryOp.decodes_form (op : UnaryOp) :
    Decodes level (UnaryOp.form level) (.string op.name) op := by
  cases op <;> exact decodes_choiceForm_bare rfl

namespace Expr

/-- Induction over expressions: from what stands in a node to the node. -/
@[elab_as_elim]
theorem induction {motive : Expr → Prop} (field : ∀ name, motive (.field name))
    (literal : ∀ value, motive (.literal value)) (var : ∀ name, motive (.var name))
    (binary : ∀ op left right, motive left → motive right → motive (.binary op left right))
    (unary : ∀ op operand, motive operand → motive (.unary op operand))
    (call : ∀ method receiver arguments, (∀ expr ∈ receiver, motive expr) →
      (∀ expr ∈ arguments, motive expr) → motive (.call method receiver arguments)) :
    ∀ expr, motive expr
  | .field name => field name
  | .literal value => literal value
  | .var name => var name
  | .binary op left right =>
      binary op left right (induction field literal var binary unary call left)
        (induction field literal var binary unary call right)
  | .unary op operand => unary op operand (induction field literal var binary unary call operand)
  | .call method receiver arguments =>
      call method receiver arguments
        (fun expr _ => induction field literal var binary unary call expr)
        (fun expr _ => induction field literal var binary unary call expr)
termination_by expr => sizeOf expr
decreasing_by
  · simp only [Expr.binary.sizeOf_spec]
    omega
  · simp only [Expr.binary.sizeOf_spec]
    omega
  · simp only [Expr.unary.sizeOf_spec]
    omega
  · rename_i hmem
    obtain rfl := Option.mem_def.mp hmem
    simp only [Expr.call.sizeOf_spec, Option.some.sizeOf_spec]
    omega
  · rename_i hmem
    have hlt := List.sizeOf_lt_of_mem hmem
    simp only [Expr.call.sizeOf_spec]
    omega

/-! ## Nesting -/

mutual

/-- How deep the brackets of the JSON form of an expression nest. -/
def nesting : Expr → Nat
  | field _ | var _ | literal .null => 1
  | literal _ => 2
  | binary _ left right => 2 + max left.nesting right.nesting
  | unary _ operand => 2 + operand.nesting
  | call _ receiver arguments => 2 + max (receiverNesting receiver) (1 + nestingAll arguments)

/-- How deep the brackets of the JSON form of a receiver nest, zero if there is none. -/
def receiverNesting : Option Expr → Nat
  | none => 0
  | some receiver => receiver.nesting

/-- How deep the brackets of the JSON forms of some expressions nest, zero if there are none. -/
def nestingAll : List Expr → Nat
  | [] => 0
  | expr :: rest => max expr.nesting (nestingAll rest)

end

mutual

/-- Whether no constant of an expression is a float. -/
def hasNoFloat : Expr → Bool
  | literal (.float _) => false
  | field _ | var _ | literal _ => true
  | binary _ left right => left.hasNoFloat && right.hasNoFloat
  | unary _ operand => operand.hasNoFloat
  | call _ receiver arguments => receiverHasNoFloat receiver && allHaveNoFloat arguments

/-- Whether no constant of a receiver is a float, if there is one. -/
def receiverHasNoFloat : Option Expr → Bool
  | none => true
  | some receiver => receiver.hasNoFloat

/-- Whether no constant of some expressions is a float. -/
def allHaveNoFloat : List Expr → Bool
  | [] => true
  | expr :: rest => expr.hasNoFloat && allHaveNoFloat rest

end

theorem allHaveNoFloat_iff {exprs : List Expr} :
    allHaveNoFloat exprs = true ↔ ∀ expr ∈ exprs, expr.hasNoFloat = true := by
  induction exprs with
  | nil => simp [allHaveNoFloat]
  | cons expr rest ih => simp [allHaveNoFloat, ih]

theorem hasNoFloat_call {method : String} {receiver : Option Expr} {arguments : List Expr} :
    (call method receiver arguments).hasNoFloat = true ↔
      (∀ expr ∈ receiver, expr.hasNoFloat = true) ∧
        ∀ expr ∈ arguments, expr.hasNoFloat = true := by
  rw [hasNoFloat, Bool.and_eq_true, allHaveNoFloat_iff]
  cases receiver <;> simp [receiverHasNoFloat]

theorem allToJson_eq_map (exprs : List Expr) : allToJson exprs = exprs.map toJson := by
  induction exprs with
  | nil => rfl
  | cons expr rest ih => rw [allToJson, ih, List.map_cons]

theorem receiverToJson_eq_optional (receiver : Option Expr) :
    receiverToJson receiver = .optional toJson receiver := by
  cases receiver <;> rfl

theorem itemsNesting_allToJson {exprs : List Expr}
    (h : ∀ expr ∈ exprs, expr.toJson.nesting = expr.nesting) :
    itemsNesting (allToJson exprs) = nestingAll exprs := by
  induction exprs with
  | nil => rfl
  | cons expr rest ih =>
    rw [allToJson, itemsNesting, nestingAll, h expr List.mem_cons_self,
      ih fun other hother => h other (List.mem_cons_of_mem _ hother)]

theorem nesting_literal_toJson {value : Literal} (hfloat : ∀ x, value ≠ .float x) :
    1 + value.toJson.nesting = (literal value).nesting := by
  cases value with
  | float x => exact absurd rfl (hfloat x)
  | _ => rfl

theorem nesting_toJson {expr : Expr} (hfloat : expr.hasNoFloat = true) :
    expr.toJson.nesting = expr.nesting := by
  induction expr using Expr.induction with
  | field name => rfl
  | var name => rfl
  | literal value =>
    rw [toJson, nesting_tagged]
    exact nesting_literal_toJson (by rintro x rfl; exact nomatch hfloat)
  | binary op left right hleft hright =>
    rw [hasNoFloat, Bool.and_eq_true] at hfloat
    rw [toJson, nesting_tagged, nesting]
    simp only [Value.nesting, membersNesting, hleft hfloat.1, hright hfloat.2]
    omega
  | unary op operand hoperand =>
    rw [toJson, nesting_tagged, nesting]
    simp only [Value.nesting, membersNesting, hoperand hfloat]
    omega
  | call method receiver arguments hreceiver harguments =>
    obtain ⟨hreceiver', harguments'⟩ := hasNoFloat_call.mp hfloat
    have hitems := itemsNesting_allToJson fun expr hmem =>
      harguments expr hmem (harguments' expr hmem)
    rw [toJson, nesting_tagged, nesting]
    simp only [Value.nesting, membersNesting, hitems]
    cases receiver with
    | none =>
      have hnull : Value.null.nesting = 0 := rfl
      rw [receiverToJson, receiverNesting, hnull]
      omega
    | some receiver =>
      rw [receiverToJson, receiverNesting, hreceiver receiver rfl (hreceiver' receiver rfl)]
      omega

/-! ## Records of nodes -/

theorem isPresent_toJson (expr : Expr) : IsPresent expr.toJson := by
  cases expr <;> exact isPresent_tagged _ _

/-- The record of an operation between two expressions, as it is written. -/
def writtenBinary (operand : Reader Expr) (op : BinaryOp) (left right : Expr) :
    List (WrittenField BinaryParts) :=
  [⟨.of "op" BinaryOp.form fun parts op => { parts with op }, .string op.name,
      fun parts => { parts with op }⟩,
    ⟨.of "left" (fun _ => operand) fun parts left => { parts with left }, left.toJson,
      fun parts => { parts with left }⟩,
    ⟨.of "right" (fun _ => operand) fun parts right => { parts with right }, right.toJson,
      fun parts => { parts with right }⟩]

theorem decodes_binaryForm {operand : Reader Expr} {op : BinaryOp} {left right : Expr}
    (hsteps : (recordValue (writtenBinary operand op left right)).text.length ≤ steps)
    (hleft : ∀ below, level = below + 1 → Decodes below operand left.toJson left)
    (hright : ∀ below, level = below + 1 → Decodes below operand right.toJson right) :
    Decodes level ((binaryForm operand).read steps level)
      (recordValue (writtenBinary operand op left right)) (.binary op left right) := by
  refine decodes_record rfl (show ["op", "left", "right"].Nodup by decide) hsteps ?_ rfl
  intro below hbelow
  simp only [writtenBinary, List.forall_mem_cons]
  refine ⟨fun parts => ?_, fun parts => ?_, fun parts => ?_, nofun⟩
  · exact op.decodes_form.map fun op => { parts with op }
  · exact (hleft below hbelow).map fun left => { parts with left }
  · exact (hright below hbelow).map fun right => { parts with right }

/-- The record of an operation on one expression, as it is written. -/
def writtenUnary (reader : Reader Expr) (op : UnaryOp) (operand : Expr) :
    List (WrittenField UnaryParts) :=
  [⟨.of "op" UnaryOp.form fun parts op => { parts with op }, .string op.name,
      fun parts => { parts with op }⟩,
    ⟨.of "operand" (fun _ => reader) fun parts operand => { parts with operand }, operand.toJson,
      fun parts => { parts with operand }⟩]

theorem decodes_unaryForm {reader : Reader Expr} {op : UnaryOp} {operand : Expr}
    (hsteps : (recordValue (writtenUnary reader op operand)).text.length ≤ steps)
    (hoperand : ∀ below, level = below + 1 → Decodes below reader operand.toJson operand) :
    Decodes level ((unaryForm reader).read steps level)
      (recordValue (writtenUnary reader op operand)) (.unary op operand) := by
  refine decodes_record rfl (show ["op", "operand"].Nodup by decide) hsteps ?_ rfl
  intro below hbelow
  simp only [writtenUnary, List.forall_mem_cons]
  refine ⟨fun parts => ?_, fun parts => ?_, nofun⟩
  · exact op.decodes_form.map fun op => { parts with op }
  · exact (hoperand below hbelow).map fun operand => { parts with operand }

/-- The record of a call, as it is written. -/
def writtenCall (steps : Nat) (receiverForm argumentForm : Reader Expr) (method : String)
    (receiver : Option Expr) (arguments : List Expr) : List (WrittenField CallParts) :=
  [⟨.of "method" (fun _ => stringForm) fun parts method => { parts with method }, .string method,
      fun parts => { parts with method }⟩,
    ⟨.of "receiver" (fun _ => optionForm receiverForm) fun parts receiver =>
        { parts with receiver },
      .optional toJson receiver, fun parts => { parts with receiver }⟩,
    ⟨.of "args" (listForm steps fun _ => argumentForm) fun parts arguments =>
        { parts with arguments },
      .array (arguments.map toJson), fun parts => { parts with arguments }⟩]

/-- The arguments of a call are read one level below its receiver. -/
theorem decodes_callForm {receiverForm argumentForm : Reader Expr} {method : String}
    {receiver : Option Expr} {arguments : List Expr}
    (hsteps : (recordValue (writtenCall steps receiverForm argumentForm method receiver
      arguments)).text.length ≤ steps)
    (hreceiver : ∀ below, level = below + 1 → ∀ expr ∈ receiver,
      Decodes below receiverForm expr.toJson expr)
    (harguments : ∀ below, level = below + 2 → ∀ expr ∈ arguments,
      Decodes below argumentForm expr.toJson expr) :
    Decodes level ((callForm steps receiverForm argumentForm).read steps level)
      (recordValue (writtenCall steps receiverForm argumentForm method receiver arguments))
      (.call method receiver arguments) := by
  have hlist : (Value.array (arguments.map toJson)).text.length ≤ steps := by
    have hmem : ("args", Value.array (arguments.map toJson)) ∈ [("method", Value.string method),
        ("receiver", .optional toJson receiver), ("args", .array (arguments.map toJson))] := by
      simp
    exact Nat.le_of_lt (Nat.lt_of_lt_of_le (length_text_lt_of_mem_members hmem) hsteps)
  refine decodes_record rfl (show ["method", "receiver", "args"].Nodup by decide) hsteps ?_ rfl
  intro below hbelow
  simp only [writtenCall, List.forall_mem_cons]
  refine ⟨fun parts => ?_, fun parts => ?_, fun parts => ?_, nofun⟩
  · exact (decodes_stringForm method).map fun method => { parts with method }
  · have hoption := decodes_optionForm (fun expr _ => isPresent_toJson expr)
      (hreceiver below hbelow)
    exact hoption.map fun receiver => { parts with receiver }
  · have hitems : Decodes below (listForm steps (fun _ => argumentForm) below)
        (.array (arguments.map toJson)) arguments :=
      decodes_listForm hlist (fun expr _ => isPresent_toJson expr)
        fun bottom hbottom => harguments bottom (by omega)
    exact hitems.map fun arguments => { parts with arguments }

/-! ## Expressions -/

/-- The expressions that stand right below a node. -/
def parts : Expr → List Expr
  | field _ | literal _ | var _ => []
  | binary _ left right => [left, right]
  | unary _ operand => [operand]
  | call _ receiver arguments => receiver.toList ++ arguments

theorem length_text_lt_of_mem_parts {expr : Expr} (part : Expr) (h : part ∈ expr.parts) :
    part.toJson.text.length < expr.toJson.text.length := by
  have htagged (tag key : String) {members : List (String × Value)} {v : Value}
      (hmem : (key, v) ∈ members) :
      v.text.length < (Value.tagged tag (.object members)).text.length :=
    Nat.lt_trans (length_text_lt_of_mem_members hmem) (length_text_lt_tagged tag _)
  cases expr with
  | field | literal | var => exact nomatch h
  | binary op left right =>
    rcases List.mem_cons.mp h with rfl | hright
    · exact htagged "Binary" "left" (.tail _ (.head _))
    · rw [List.mem_singleton.mp hright]
      exact htagged "Binary" "right" (.tail _ (.tail _ (.head _)))
  | unary op operand =>
    rw [List.mem_singleton.mp h]
    exact htagged "Unary" "operand" (.tail _ (.head _))
  | call method receiver arguments =>
    rw [toJson, allToJson_eq_map, receiverToJson_eq_optional]
    rcases List.mem_append.mp h with hreceiver | hargument
    · rw [Option.mem_toList.mp hreceiver]
      exact htagged "Call" "receiver" (.tail _ (.head _))
    · exact Nat.lt_trans (length_text_lt_of_mem_items (List.mem_map_of_mem hargument))
        (htagged "Call" "args" (.tail _ (.tail _ (.head _))))

/-- Operands are read two levels below the node, and arguments three levels. -/
theorem exists_form_eq (steps level : Nat) :
    ∃ operand argument, form steps level = formWith steps operand argument level ∧
      (∀ below, level = below + 2 → operand = form steps below) ∧
      ∀ below, level = below + 3 → argument = form steps below := by
  match level with
  | below + 3 =>
    exact ⟨form steps (below + 1), form steps below, rfl, by rintro _ ⟨⟩; rfl,
      by rintro _ ⟨⟩; rfl⟩
  | 2 => exact ⟨form steps 0, noLevel, rfl, by rintro _ ⟨⟩; rfl, nofun⟩
  | 0 | 1 => exact ⟨noLevel, noLevel, rfl, nofun, nofun⟩

/-- An expression without floats is read back on every level. -/
theorem decodes_form {expr : Expr} (hfloat : expr.hasNoFloat = true) {steps : Nat}
    (hsteps : expr.toJson.text.length ≤ steps) (level : Nat) :
    Decodes level (form steps level) expr.toJson expr := by
  induction expr using Expr.induction generalizing level with
  | field name =>
    obtain ⟨operand, argument, hform, _⟩ := exists_form_eq steps level
    rw [hform]
    exact decodes_choiceForm_tagged rfl fun _ _ => (decodes_stringForm name).map Expr.field
  | var name =>
    obtain ⟨operand, argument, hform, _⟩ := exists_form_eq steps level
    rw [hform]
    exact decodes_choiceForm_tagged rfl fun _ _ => (decodes_stringForm name).map Expr.var
  | literal value =>
    obtain ⟨operand, argument, hform, _⟩ := exists_form_eq steps level
    rw [hform]
    refine decodes_choiceForm_tagged rfl fun _ _ => Decodes.map ?_ Expr.literal
    exact Literal.decodes_form (by rintro x rfl; exact nomatch hfloat)
  | binary op left right hleft hright =>
    obtain ⟨operand, argument, hform, hoperand, _⟩ := exists_form_eq steps level
    obtain ⟨hleftFloat, hrightFloat⟩ := (Bool.and_eq_true ..).mp hfloat
    have htext := @length_text_lt_of_mem_parts (.binary op left right)
    have hlt := htext left (.head _)
    have hlt' := htext right (.tail _ (.head _))
    have hrecord := length_text_lt_tagged "Binary"
      (recordValue (writtenBinary operand op left right))
    rw [hform]
    refine decodes_choiceForm_tagged rfl fun below hbelow =>
      decodes_binaryForm (Nat.le_of_lt (Nat.lt_of_lt_of_le hrecord hsteps))
        (fun bottom hbottom => ?_) fun bottom hbottom => ?_
    · rw [hoperand bottom (by omega)]
      exact hleft hleftFloat (by omega) bottom
    · rw [hoperand bottom (by omega)]
      exact hright hrightFloat (by omega) bottom
  | unary op operand ih =>
    obtain ⟨reader, argument, hform, hoperand, _⟩ := exists_form_eq steps level
    have hlt := @length_text_lt_of_mem_parts (.unary op operand) operand (.head _)
    have hrecord := length_text_lt_tagged "Unary" (recordValue (writtenUnary reader op operand))
    rw [hform]
    refine decodes_choiceForm_tagged rfl fun below hbelow =>
      decodes_unaryForm (Nat.le_of_lt (Nat.lt_of_lt_of_le hrecord hsteps)) fun bottom hbottom => ?_
    rw [hoperand bottom (by omega)]
    exact ih hfloat (by omega) bottom
  | call method receiver arguments hreceiver harguments =>
    obtain ⟨operand, argument, hform, hoperand, hargument⟩ := exists_form_eq steps level
    obtain ⟨hreceiverFloat, hargumentsFloat⟩ := hasNoFloat_call.mp hfloat
    have htext := @length_text_lt_of_mem_parts (.call method receiver arguments)
    have hjson : (call method receiver arguments).toJson = .tagged "Call"
        (recordValue (writtenCall steps operand argument method receiver arguments)) := by
      rw [toJson, allToJson_eq_map, receiverToJson_eq_optional]
      rfl
    have hrecord := length_text_lt_tagged "Call"
      (recordValue (writtenCall steps operand argument method receiver arguments))
    rw [hjson] at hsteps htext ⊢
    rw [hform]
    refine decodes_choiceForm_tagged rfl fun below hbelow =>
      decodes_callForm (Nat.le_of_lt (Nat.lt_of_lt_of_le hrecord hsteps))
        (fun bottom hbottom expr hmem => ?_) fun bottom hbottom expr hmem => ?_
    · have hlt := htext expr (List.mem_append_left _ (Option.mem_toList.mpr hmem))
      rw [hoperand bottom (by omega)]
      exact hreceiver expr hmem (hreceiverFloat expr hmem) (by omega) bottom
    · have hlt := htext expr (List.mem_append_right _ hmem)
      rw [hargument bottom (by omega)]
      exact harguments expr hmem (hargumentsFloat expr hmem) (by omega) bottom

/-- An expression without floats is read from its JSON text as what it is if the brackets of the
text nest at most 127 deep, so its translation is that of what is read.  If they nest deeper, the
text is refused, with a fault of its grammar. -/
theorem read_text_toJson_of_hasNoFloat {expr : Expr} (hfloat : expr.hasNoFloat = true) :
    (expr.nesting ≤ 127 → read expr.toJson.text = .ok expr ∧
      ∀ scope, (read expr.toJson.text).map (translate scope) = .ok (expr.translate scope)) ∧
      (127 < expr.nesting → ∃ fault, read expr.toJson.text = .error fault ∧
        fault.problem = .tooDeep ∧ fault.problem.category = .grammar) := by
  have hread := readForm_text
    (decodes_form hfloat (Nat.le_refl expr.toJson.text.length) maxNesting)
  rw [nesting_toJson hfloat] at hread
  refine ⟨fun hfits => ?_, fun hdeep => ?_⟩
  · have hdecoded : read expr.toJson.text = .ok expr := hread.1 hfits
    exact ⟨hdecoded, fun scope => by rw [hdecoded, Except.map]⟩
  · obtain ⟨left, herror⟩ := hread.2 hdeep
    exact ⟨⟨.tooDeep, left⟩, herror, rfl, rfl⟩

/-- A call with the least and the greatest number and a text with a quote, under `n` negations. -/
def negatedCall (n : Nat) : Expr :=
  Nat.repeat (.unary .not) n (.call "any\n" none
    [.literal (.integer Int64.minValue), .literal (.integer Int64.maxValue),
      .literal (.text "a\"b")])

theorem read_text_toJson_negatedCall :
    (negatedCall 61).nesting = 127 ∧
      read (negatedCall 61).toJson.text = .ok (negatedCall 61) ∧
      (negatedCall 62).nesting = 129 ∧
      ∃ fault, read (negatedCall 62).toJson.text = .error fault ∧ fault.problem = .tooDeep := by
  have hfits : (negatedCall 61).nesting = 127 := rfl
  have hdeep : (negatedCall 62).nesting = 129 := rfl
  have hread := (read_text_toJson_of_hasNoFloat (rfl : (negatedCall 61).hasNoFloat = true)).1
    (Nat.le_of_eq hfits)
  obtain ⟨fault, herror, hproblem, _⟩ :=
    (read_text_toJson_of_hasNoFloat (rfl : (negatedCall 62).hasNoFloat = true)).2 (by omega)
  exact ⟨hfits, hread.1, hdeep, fault, herror, hproblem⟩

end Expr

end SearchQuery
