import Unnest.Proofs.Script.Spelling

/-! Every spelling of a tree is decoded to that tree. What a record decodes to depends only on
what its fields are found to hold, and a field is found to hold what it spells, or nothing
where its default may be left out. -/

namespace Unnest.Script

section Found

/-- What a record shows of a field: its content, or nothing if it holds its default. -/
def Field.ShownBy (field : Field Json) (json : Json) (seen : Option Json) : Prop :=
  seen = some field.content ∧ field.content.depth < json.depth ∨ field.spare = true ∧ seen = none

/-- A field that is written with its key is found by it. -/
theorem shownBy_lookup {fields kept : List (Field Json)} {unknown members : List (String × Json)}
    (distinct : (fields.map Field.name).Nodup) (among : kept.Sublist fields)
    (left : ∀ field ∈ fields, field ∉ kept → field.spare = true)
    (foreign : ∀ member ∈ unknown, member.1 ∉ fields.map Field.name)
    (shuffled : members.Perm (kept.map Field.member ++ unknown)) {field : Field Json}
    (member : field ∈ fields) :
    field.ShownBy (.object members) (Json.lookup field.name members) := by
  have origin : ∀ entry ∈ members, entry.1 = field.name → field ∈ kept ∧ entry.2 = field.content := by
    intro entry inside same
    rcases List.mem_append.1 (shuffled.mem_iff.1 inside) with known | other
    · rcases List.mem_map.1 known with ⟨owner, isKept, rfl⟩
      have unique : owner = field :=
        List.inj_on_of_nodup_map distinct (among.subset isKept) member same
      subst unique
      exact ⟨isKept, rfl⟩
    · exact absurd (same ▸ List.mem_map_of_mem member) (foreign entry other)
  by_cases isKept : field ∈ kept
  · have inside : (field.name, field.content) ∈ members :=
      shuffled.mem_iff.2 (List.mem_append_left _ (List.mem_map.2 ⟨field, isKept, rfl⟩))
    refine .inl ⟨Json.lookup_eq_some inside fun entry inside same => (origin entry inside same).2, ?_⟩
    exact Json.depth_lt_of_mem_members inside
  · refine .inr ⟨left field member isKept, Json.lookup_eq_none fun entry inside same => ?_⟩
    exact isKept (origin entry inside same).1

/-- However a record is written, each of its fields shows. -/
theorem fieldValues_written {fields : List (Field Json)} {json : Json}
    (distinct : (fields.map Field.name).Nodup) (written : Written fields json) :
    ∃ seen, fieldValues (fields.map Field.name) json = some seen ∧
      List.Forall₂ (fun field found => field.ShownBy json found) fields seen := by
  cases written with
  | keyed among left foreign shuffled =>
    refine ⟨_, rfl, List.forall₂_map_right_iff.2 (List.forall₂_map_right_iff.2 ?_)⟩
    exact List.forall₂_same.2 fun field member =>
      shownBy_lookup distinct among left foreign shuffled member
  | @positional front back whole left =>
    subst whole
    refine ⟨(front.map Field.content).map some ++ back.map fun _ => none, ?_, List.rel_append ?_ ?_⟩
    · have fits : (front.map Field.content).length ≤ ((front ++ back).map Field.name).length := by
        simp
      rw [fieldValues, if_pos fits, List.map_const']
      simp
    · refine List.forall₂_map_right_iff.2 (List.forall₂_map_right_iff.2 (List.forall₂_same.2 ?_))
      exact fun field member =>
        .inl ⟨rfl, Json.depth_lt_of_mem_items (List.mem_map_of_mem member)⟩
    · refine List.forall₂_map_right_iff.2 (List.forall₂_same.2 ?_)
      exact fun field member => .inr ⟨left field member, rfl⟩

/-- What is found for a slot: a spelling of its part, or nothing if it may be left out. -/
inductive Shown (limit : Nat) : Slot → Option Json → Prop where
  | present {slot : Slot} {value : Json} (spells : Spells slot.part value)
      (inside : value.depth < limit) : Shown limit slot (some value)
  | absent {slot : Slot} (spare : slot.spare = true) : Shown limit slot none

theorem map_name_holding {fields : List (Field Part)} {contents : List Json}
    (each : List.Forall₂ Spells (fields.map Field.content) contents) :
    (List.zipWith Field.holding fields contents).map Field.name = fields.map Field.name := by
  induction fields generalizing contents with
  | nil => rfl
  | cons field fields ih =>
    rcases each with _ | ⟨_, others⟩
    rw [List.zipWith_cons_cons, List.map_cons, List.map_cons, ih others]
    rfl

theorem map_name_named {names : List String} {slots : List Slot} (same : names.length = slots.length) :
    (named names slots).map Field.name = names := by
  induction names generalizing slots with
  | nil => rfl
  | cons name names ih =>
    rcases slots with _ | ⟨slot, slots⟩
    · cases same
    · rw [named, List.zipWith_cons_cons, ← named, List.map_cons, ih (Nat.succ.inj same)]

theorem shown_of_shownBy {names : List String} {slots : List Slot} {contents : List Json}
    {seen : List (Option Json)} {json : Json} {limit : Nat} (same : names.length = slots.length)
    (shallow : json.depth ≤ limit)
    (each : List.Forall₂ Spells ((named names slots).map Field.content) contents)
    (shows : List.Forall₂ (fun field found => field.ShownBy json found)
      (List.zipWith Field.holding (named names slots) contents) seen) :
    List.Forall₂ (Shown limit) slots seen := by
  induction slots generalizing names contents seen with
  | nil =>
    rcases names with _ | ⟨name, names⟩
    · rcases shows with _ | _
      exact .nil
    · cases same
  | cons slot slots ih =>
    rcases names with _ | ⟨name, names⟩
    · cases same
    · rcases each with _ | ⟨spells, others⟩
      rcases shows with _ | ⟨found, later⟩
      refine .cons ?_ (ih (Nat.succ.inj same) others later)
      rcases found with ⟨rfl, inside⟩ | ⟨spare, rfl⟩
      · exact .present spells (Nat.lt_of_lt_of_le inside shallow)
      · exact .absent spare

/-- A spelled record shows all of its slots. -/
theorem fieldValues_of_spells {part : Part} {names : List String} {slots : List Slot} {json : Json}
    {limit : Nat} (isRecord : part.fields? = some (named names slots))
    (same : names.length = slots.length) (distinct : names.Nodup) (spells : Spells part json)
    (shallow : json.depth ≤ limit) :
    ∃ seen, fieldValues names json = some seen ∧ List.Forall₂ (Shown limit) slots seen := by
  cases spells with
  | nothing | text | truth | list => cases isRecord
  | record found each written =>
    cases isRecord.symm.trans found
    have keys := (map_name_holding each).trans (map_name_named same)
    rw [← keys] at distinct
    rcases fieldValues_written distinct written with ⟨seen, values, shows⟩
    rw [keys] at values
    exact ⟨seen, values, shown_of_shownBy same shallow each shows⟩

/-- The kind of a record is its first field. -/
theorem kindValue_of_fieldValues {names : List String} {json value : Json}
    {others : List (Option Json)}
    (values : fieldValues ("kind" :: names) json = some (some value :: others)) :
    kindValue json = some value := by
  cases json with
  | object members => exact (List.cons.inj (Option.some.inj values)).1
  | array items =>
    cases items with
    | nil => simp [fieldValues, List.replicate_succ] at values
    | cons first rest =>
      rw [fieldValues] at values
      split at values
      · cases values
        rfl
      · cases values
  | null | boolean | number | string => cases values

/-- A spelled record with a kind is decoded to the kind and to what its other slots show. -/
theorem decodeRecord_of_spells {κ : Type} {all : List κ} {tag : κ → String} {fields : κ → List String}
    {kind : κ} {nested : Bool} {part : Part} {slots : List Slot} {json : Json} {limit : Nat}
    (known : decodeKind all tag nested (.string (tag kind)) = some kind)
    (isRecord : part.fields? =
      some (named ("kind" :: fields kind) (.needed (.text (tag kind)) :: slots)))
    (same : (fields kind).length = slots.length) (distinct : ("kind" :: fields kind).Nodup)
    (spells : Spells part json) (shallow : json.depth ≤ limit) :
    ∃ seen, decodeRecord all tag fields nested json = some (kind, seen) ∧
      List.Forall₂ (Shown limit) slots seen := by
  rcases fieldValues_of_spells isRecord (congrArg Nat.succ same) distinct spells shallow with
    ⟨seen, values, shows⟩
  rcases shows with _ | ⟨first, others⟩
  rcases first with ⟨spelled, _⟩ | ⟨spare⟩
  · cases spelled with
    | text =>
      refine ⟨_, ?_, others⟩
      rw [decodeRecord, kindValue_of_fieldValues values]
      simp only [Option.bind_eq_bind, Option.bind_some, known, values, List.tail_cons]
    | record found => cases found
  · cases spare

end Found

section Fields

variable {α : Type} {limit : Nat} {decode : Json → Option α} {seen : Option Json} {value : α}

/-- The decoder takes every spelling of the part for the value. -/
def Reads (limit : Nat) (part : Part) (decode : Json → Option α) (value : α) : Prop :=
  ∀ json, Spells part json → json.depth < limit → decode json = some value

theorem reads_text (text : String) : Reads limit (.text text) decodeString text := by
  intro json spells _
  cases spells with
  | text => rfl
  | record found => cases found

theorem reads_truth (truth : Bool) : Reads limit (.truth truth) decodeBoolean truth := by
  intro json spells _
  cases spells with
  | truth => rfl
  | record found => cases found

theorem reads_list {part : α → Part} (each : ∀ value, Reads limit (part value) decode value)
    (values : List α) : Reads limit (.list (values.map part)) (decodeList decode) values := by
  intro json spells shallow
  cases spells with
  | record found => cases found
  | @list _ items spelled =>
    have inside : ∀ item ∈ items, item.depth < limit := fun item member =>
      Nat.lt_trans (Json.depth_lt_of_mem_items member) shallow
    clear shallow
    rw [decodeList]
    induction values generalizing items with
    | nil =>
      cases spelled
      rfl
    | cons first rest ih =>
      rcases spelled with _ | ⟨here, later⟩
      rw [List.mapM_cons, each first _ here (inside _ (List.mem_cons_self ..)),
        ih later fun item member => inside item (List.mem_cons_of_mem _ member)]
      rfl

theorem Shown.required_eq {part : Part} (shown : Shown limit (.needed part) seen)
    (reads : Reads limit part decode value) : required decode seen = some value := by
  cases shown with
  | present spells inside => exact reads _ spells inside
  | absent spare => cases spare

theorem Shown.withDefault_eq {slot : Slot} {fallback : α} (shown : Shown limit slot seen)
    (default : slot.spare = true → value = fallback) (reads : Reads limit slot.part decode value) :
    withDefault fallback decode seen = some value := by
  cases shown with
  | present spells inside => exact reads _ spells inside
  | absent spare => rw [default spare, withDefault]

theorem Shown.listed_eq {part : α → Part} {values : List α}
    (shown : Shown limit (.listed (values.map part)) seen)
    (reads : ∀ value, Reads limit (part value) decode value) :
    withDefault [] (decodeList decode) seen = some values := by
  refine shown.withDefault_eq (fun spare => ?_) (reads_list reads values)
  rw [Slot.listed, List.isEmpty_iff, List.map_eq_nil_iff] at spare
  exact spare

theorem Part.text_ne_nothing (value : String) : Part.text value ≠ .nothing := nofun

theorem Part.expression_ne_nothing (value : Expr) : Part.expression value ≠ .nothing := nofun

theorem Part.body_ne_nothing (body : List Stmt) : Part.body body ≠ .nothing := nofun

/-- Only a missing value is spelled by null. -/
theorem Spells.ne_null {part : Part} {json : Json} (spells : Spells part json)
    (given : part ≠ .nothing) : json ≠ .null := by
  rintro rfl
  cases spells with
  | nothing => exact given rfl
  | record _ _ written => cases written

theorem optional_of_ne_null (decode : Json → Option α) {json : Json} (given : json ≠ .null) :
    optional decode (some json) = (decode json).map some := by
  cases json with
  | null => exact absurd rfl given
  | boolean | number | string | array | object => rfl

theorem Shown.optional_eq {part : α → Part} {value : Option α}
    (shown : Shown limit (.optional (value.map part)) seen)
    (reads : ∀ value, Reads limit (part value) decode value) (given : ∀ value, part value ≠ .nothing) :
    optional decode seen = some value := by
  cases value with
  | none =>
    cases shown with
    | absent => rfl
    | present spells =>
      cases spells with
      | nothing => rfl
      | record found => cases found
  | some value =>
    cases shown with
    | absent spare => cases spare
    | present spells inside =>
      rw [optional_of_ne_null decode (spells.ne_null (given value)), reads value _ spells inside,
        Option.map_some]

end Fields

section Trees

variable {fuel : Nat} {json : Json}

/-- With that much fuel every tree is read from its spellings that are less deep. -/
structure Fueled (fuel : Nat) : Prop where
  expression : ∀ nested value, Reads fuel (.expression value) (exprOf fuel nested) value
  statement : ∀ nested value, Reads fuel (.statement value) (stmtOf fuel nested) value
  case : ∀ value, Reads fuel (.case value) (caseOf fuel) value

theorem Fueled.body (fueled : Fueled fuel) (body : List Stmt) :
    Reads fuel (.body body) (decodeList (stmtOf fuel true)) body :=
  reads_list (fueled.statement true) body

theorem decodeRecord_expression (nested : Bool) {value : Expr} (spells : Spells (.expression value) json)
    (shallow : json.depth ≤ fuel) : ∃ seen,
      decodeRecord ExprKind.all ExprKind.tag ExprKind.fields nested json = some (value.kind, seen) ∧
        List.Forall₂ (Shown fuel) value.slots seen := by
  refine decodeRecord_of_spells ?_ rfl ?_ ?_ spells shallow
  · cases value.kind <;> rfl
  · cases value <;> rfl
  · cases value.kind <;> decide

theorem decodeRecord_statement (nested : Bool) {value : Stmt} (spells : Spells (.statement value) json)
    (shallow : json.depth ≤ fuel) : ∃ seen,
      decodeRecord Kind.all Kind.tag Kind.fields nested json = some (value.kind, seen) ∧
        List.Forall₂ (Shown fuel) value.slots seen := by
  refine decodeRecord_of_spells ?_ rfl ?_ ?_ spells shallow
  · cases value.kind <;> rfl
  · cases value <;> rfl
  · cases value.kind <;> decide

theorem Fueled.case_succ (fueled : Fueled fuel) (value : Case) :
    Reads (fuel + 1) (.case value) (caseOf (fuel + 1)) value := by
  intro json spells shallow
  rcases fieldValues_of_spells rfl rfl (by decide) spells (Nat.le_of_lt_succ shallow) with
    ⟨seen, values, shows⟩
  rcases value with ⟨test, body⟩
  rcases shows with _ | ⟨atTest, _ | ⟨atBody, _ | _⟩⟩
  have readTest := atTest.optional_eq (fueled.expression true) Part.expression_ne_nothing
  have readBody := atBody.required_eq (fueled.body body)
  simp only [caseOf, values, Option.bind_eq_bind, Option.bind_some, readTest, readBody,
    Option.pure_def, Case.test]

/-- The initializer of a `for` loop may be left out when it is empty. -/
theorem Shown.init_eq {init : Stmt} {decode : Json → Option Stmt} {seen : Option Json}
    (shown : Shown fuel (.init init) seen) (reads : Reads fuel (.statement init) decode init) :
    withDefault .empty decode seen = some init := by
  cases init with
  | empty => exact shown.withDefault_eq (fun _ => rfl) reads
  | _ => exact shown.withDefault_eq nofun reads

theorem Fueled.expression_succ (fueled : Fueled fuel) (nested : Bool) (value : Expr) :
    Reads (fuel + 1) (.expression value) (exprOf (fuel + 1) nested) value := by
  intro json spells shallow
  rcases decodeRecord_expression nested spells (Nat.le_of_lt_succ shallow) with ⟨seen, decoded, shows⟩
  rw [exprOf, decoded]
  cases value with
  | identifier name =>
    rcases shows with _ | ⟨atName, _ | _⟩
    simp only [Expr.kind, Option.bind_eq_bind, Option.bind_some, Option.pure_def,
      atName.required_eq (reads_text name)]
  | number literal =>
    rcases shows with _ | ⟨atLiteral, _ | _⟩
    simp only [Expr.kind, Option.bind_eq_bind, Option.bind_some, Option.pure_def,
      atLiteral.required_eq (reads_text literal)]
  | string value =>
    rcases shows with _ | ⟨atValue, _ | _⟩
    simp only [Expr.kind, Option.bind_eq_bind, Option.bind_some, Option.pure_def,
      atValue.required_eq (reads_text value)]
  | boolean value =>
    rcases shows with _ | ⟨atValue, _ | _⟩
    simp only [Expr.kind, Option.bind_eq_bind, Option.bind_some, Option.pure_def,
      atValue.required_eq (reads_truth value)]
  | null =>
    rcases shows with _ | _
    rfl
  | unary operator operand =>
    rcases shows with _ | ⟨atOperator, _ | ⟨atOperand, _ | _⟩⟩
    simp only [Expr.kind, Option.bind_eq_bind, Option.bind_some, Option.pure_def,
      atOperator.required_eq (reads_text operator),
      atOperand.required_eq (fueled.expression true operand)]
  | binary left operator right =>
    rcases shows with _ | ⟨atLeft, _ | ⟨atOperator, _ | ⟨atRight, _ | _⟩⟩⟩
    simp only [Expr.kind, Option.bind_eq_bind, Option.bind_some, Option.pure_def,
      atLeft.required_eq (fueled.expression true left),
      atOperator.required_eq (reads_text operator),
      atRight.required_eq (fueled.expression true right)]
  | assign target value =>
    rcases shows with _ | ⟨atTarget, _ | ⟨atValue, _ | _⟩⟩
    simp only [Expr.kind, Option.bind_eq_bind, Option.bind_some, Option.pure_def,
      atTarget.required_eq (fueled.expression true target),
      atValue.required_eq (fueled.expression true value)]
  | call callee arguments =>
    rcases shows with _ | ⟨atCallee, _ | ⟨atArguments, _ | _⟩⟩
    simp only [Expr.kind, Option.bind_eq_bind, Option.bind_some, Option.pure_def,
      atCallee.required_eq (fueled.expression true callee),
      atArguments.listed_eq (fueled.expression true)]
  | member object property =>
    rcases shows with _ | ⟨atObject, _ | ⟨atProperty, _ | _⟩⟩
    simp only [Expr.kind, Option.bind_eq_bind, Option.bind_some, Option.pure_def,
      atObject.required_eq (fueled.expression true object),
      atProperty.required_eq (reads_text property)]
  | function name params body =>
    rcases shows with _ | ⟨atName, _ | ⟨atParams, _ | ⟨atBody, _ | _⟩⟩⟩
    simp only [Expr.kind, Option.bind_eq_bind, Option.bind_some, Option.pure_def,
      atName.optional_eq reads_text Part.text_ne_nothing, atParams.listed_eq reads_text,
      atBody.required_eq (fueled.body body)]

theorem Fueled.statement_succ (fueled : Fueled fuel) (nested : Bool) (value : Stmt) :
    Reads (fuel + 1) (.statement value) (stmtOf (fuel + 1) nested) value := by
  intro json spells shallow
  rcases decodeRecord_statement nested spells (Nat.le_of_lt_succ shallow) with ⟨seen, decoded, shows⟩
  rw [stmtOf, decoded]
  cases value with
  | block body =>
    rcases shows with _ | ⟨atBody, _ | _⟩
    simp only [Stmt.kind, Option.bind_eq_bind, Option.bind_some, Option.pure_def,
      atBody.required_eq (fueled.body body)]
  | branch test thenBody elseBody =>
    rcases shows with _ | ⟨atTest, _ | ⟨atThen, _ | ⟨atElse, _ | _⟩⟩⟩
    simp only [Stmt.kind, Option.bind_eq_bind, Option.bind_some, Option.pure_def,
      atTest.required_eq (fueled.expression true test), atThen.required_eq (fueled.body thenBody),
      atElse.optional_eq fueled.body Part.body_ne_nothing]
  | whileLoop condition body =>
    rcases shows with _ | ⟨atCondition, _ | ⟨atBody, _ | _⟩⟩
    simp only [Stmt.kind, Option.bind_eq_bind, Option.bind_some, Option.pure_def,
      atCondition.required_eq (fueled.expression true condition),
      atBody.required_eq (fueled.body body)]
  | doLoop body condition =>
    rcases shows with _ | ⟨atBody, _ | ⟨atCondition, _ | _⟩⟩
    simp only [Stmt.kind, Option.bind_eq_bind, Option.bind_some, Option.pure_def,
      atBody.required_eq (fueled.body body),
      atCondition.required_eq (fueled.expression true condition)]
  | forLoop init condition iterator body =>
    rcases shows with _ | ⟨atInit, _ | ⟨atCondition, _ | ⟨atIterator, _ | ⟨atBody, _ | _⟩⟩⟩⟩
    simp only [Stmt.kind, Option.bind_eq_bind, Option.bind_some, Option.pure_def,
      atInit.init_eq (fueled.statement true init),
      atCondition.optional_eq (fueled.expression true) Part.expression_ne_nothing,
      atIterator.optional_eq (fueled.expression true) Part.expression_ne_nothing,
      atBody.required_eq (fueled.body body)]
  | labeled label body =>
    rcases shows with _ | ⟨atLabel, _ | ⟨atBody, _ | _⟩⟩
    simp only [Stmt.kind, Option.bind_eq_bind, Option.bind_some, Option.pure_def,
      atLabel.required_eq (reads_text label), atBody.required_eq (fueled.statement true body)]
  | breakJump label =>
    rcases shows with _ | ⟨atLabel, _ | _⟩
    simp only [Stmt.kind, Option.bind_eq_bind, Option.bind_some, Option.pure_def,
      atLabel.optional_eq reads_text Part.text_ne_nothing]
  | continueJump label =>
    rcases shows with _ | ⟨atLabel, _ | _⟩
    simp only [Stmt.kind, Option.bind_eq_bind, Option.bind_some, Option.pure_def,
      atLabel.optional_eq reads_text Part.text_ne_nothing]
  | goto target =>
    rcases shows with _ | ⟨atTarget, _ | _⟩
    simp only [Stmt.kind, Option.bind_eq_bind, Option.bind_some, Option.pure_def,
      atTarget.required_eq (reads_text target)]
  | ret value =>
    rcases shows with _ | ⟨atValue, _ | _⟩
    simp only [Stmt.kind, Option.bind_eq_bind, Option.bind_some, Option.pure_def,
      atValue.optional_eq (fueled.expression true) Part.expression_ne_nothing]
  | throw value =>
    rcases shows with _ | ⟨atValue, _ | _⟩
    simp only [Stmt.kind, Option.bind_eq_bind, Option.bind_some, Option.pure_def,
      atValue.required_eq (fueled.expression true value)]
  | expression value =>
    rcases shows with _ | ⟨atValue, _ | _⟩
    simp only [Stmt.kind, Option.bind_eq_bind, Option.bind_some, Option.pure_def,
      atValue.required_eq (fueled.expression true value)]
  | empty =>
    rcases shows with _ | _
    rfl
  | switch discriminant cases =>
    rcases shows with _ | ⟨atDiscriminant, _ | ⟨atCases, _ | _⟩⟩
    simp only [Stmt.kind, Option.bind_eq_bind, Option.bind_some, Option.pure_def,
      atDiscriminant.required_eq (fueled.expression true discriminant),
      atCases.required_eq (reads_list fueled.case cases)]
  | function name params body =>
    rcases shows with _ | ⟨atName, _ | ⟨atParams, _ | ⟨atBody, _ | _⟩⟩⟩
    simp only [Stmt.kind, Option.bind_eq_bind, Option.bind_some, Option.pure_def,
      atName.required_eq (reads_text name), atParams.listed_eq reads_text,
      atBody.required_eq (fueled.body body)]

theorem fueled (fuel : Nat) : Fueled fuel := by
  induction fuel with
  | zero => exact ⟨fun _ _ _ _ => nofun, fun _ _ _ _ => nofun, fun _ _ _ => nofun⟩
  | succ fuel ih => exact ⟨ih.expression_succ, ih.statement_succ, ih.case_succ⟩

theorem decode_of_spells {statement : Stmt} (spells : Spells (.statement statement) json) :
    Stmt.decode json = some statement :=
  (fueled (json.depth + 1)).statement false statement json spells (Nat.lt_succ_self _)

end Trees

/-- However a statement is spelled, it is decoded to itself, and its canonical form is one of
its spellings. -/
theorem decode_respelled (statement : Stmt) :
    Spells (.statement statement) statement.encode ∧
      ∀ json, Spells (.statement statement) json → Stmt.decode json = some statement := by
  have canonical := spells_encode (.statement statement)
  rw [Part.encode] at canonical
  exact ⟨canonical, fun json spells => decode_of_spells spells⟩

section Example

def bareCall : Expr := .call (.identifier "f") []

/-- The call without its arguments, its kind last. -/
def bareCallRespelled : Json :=
  .object [("callee", .object [("name", .string "f"), ("kind", .string "identifier")]),
    ("kind", .string "call")]

def bareCase : Case := ⟨none, [.breakJump none]⟩

/-- The case without its test, the break in it as an array without its label. -/
def bareCaseRespelled : Json := .object [("body", .array [.array [.string "break"]])]

def bareLoop : Stmt := .forLoop .empty none none [.switch bareCall [bareCase]]

/-- The loop as an object with its body only and an unknown key, the switch in it as an array. -/
def bareLoopRespelled : Json :=
  .object [
    ("body", .array [.array [.string "switch", bareCallRespelled, .array [bareCaseRespelled]]]),
    ("note", .boolean true),
    ("kind", .string "for")]

theorem spells_bareCall : Spells (.expression bareCall) bareCallRespelled := by
  have callee : Spells (.expression (.identifier "f"))
      (.object [("name", .string "f"), ("kind", .string "identifier")]) :=
    .record rfl (.cons .text (.cons .text .nil)) (written_shuffled (.swap ..))
  refine .record rfl (.cons .text (.cons callee (.cons (.list .nil) .nil))) ?_
  change Written [⟨"kind", .string "call", false⟩, ⟨"callee", _, false⟩, ⟨"arguments", _, true⟩] _
  exact @Written.keyed _ [⟨"kind", .string "call", false⟩, ⟨"callee", _, false⟩] [] _ (by simp)
    (by simp) (by simp) (.swap ..)

theorem spells_bareCase : Spells (.case bareCase) bareCaseRespelled := by
  have jump : Spells (.statement (.breakJump none)) (.array [.string "break"]) :=
    .record rfl (.cons .text (.cons .nothing .nil)) (@Written.positional _
      [⟨"kind", .string "break", false⟩] [⟨"label", .null, true⟩] rfl (by simp))
  have body : Spells (.body [.breakJump none]) (.array [.array [.string "break"]]) :=
    .list (.cons jump .nil)
  refine .record rfl (.cons .nothing (.cons body .nil)) ?_
  change Written [⟨"test", .null, true⟩, ⟨"body", _, false⟩] _
  exact @Written.keyed _ [⟨"body", _, false⟩] [] _ (by simp) (by simp) (by simp) (.refl _)

theorem spells_bareLoop : Spells (.statement bareLoop) bareLoopRespelled := by
  have cases : Spells (.cases [bareCase]) (.array [bareCaseRespelled]) :=
    .list (.cons spells_bareCase .nil)
  have inner : Spells (.statement (.switch bareCall [bareCase]))
      (.array [.string "switch", bareCallRespelled, .array [bareCaseRespelled]]) :=
    .record rfl (.cons .text (.cons spells_bareCall (.cons cases .nil))) (@Written.positional _
      [⟨"kind", .string "switch", false⟩, ⟨"discriminant", _, false⟩, ⟨"cases", _, false⟩] []
      rfl (by simp))
  have init := spells_encode (.statement .empty)
  have body : Spells (.body [.switch bareCall [bareCase]]) _ := .list (.cons inner .nil)
  refine .record rfl (.cons .text (.cons init (.cons .nothing (.cons .nothing (.cons body .nil))))) ?_
  change Written [⟨"kind", .string "for", false⟩, ⟨"init", _, true⟩, ⟨"condition", .null, true⟩,
    ⟨"iterator", .null, true⟩, ⟨"body", _, false⟩] _
  exact @Written.keyed _ [⟨"kind", .string "for", false⟩, ⟨"body", _, false⟩]
    [("note", .boolean true)] _ (by simp) (by simp) (by simp)
    (((List.Perm.swap ..).cons _).trans (.swap ..))

theorem decode_respelled_bareLoop :
    Spells (.statement bareLoop) bareLoopRespelled ∧
      Stmt.decode bareLoopRespelled = some bareLoop :=
  ⟨spells_bareLoop, (decode_respelled bareLoop).2 bareLoopRespelled spells_bareLoop⟩

end Example

end Unnest.Script
