import Mathlib
import Unnest.Proofs.Json.Inside
import Unnest.Script.Decode
import Unnest.Script.Encode

/-! The JSON values that spell a tree. Every statement, expression and case is a record, and
every record has the same freedom wherever it stands: its keys come in any order and with
unknown ones among them, or it is an array of its fields, and a field that holds its default
may be left out, in an array only at the end. The canonical form is one of the spellings. -/

namespace Unnest.Script

/-- What a field of a record or an item of a list can be. -/
inductive Part where
  /-- An optional field without a value. -/
  | nothing
  | text (value : String)
  | truth (value : Bool)
  | expression (value : Expr)
  | statement (value : Stmt)
  | case (value : Case)
  | list (items : List Part)

/-- A field of a record. -/
structure Field (α : Type) where
  name : String
  content : α
  /-- The field holds its default, so it may be left out. -/
  spare : Bool

/-- A field whose name is given by its position. -/
structure Slot where
  part : Part
  spare : Bool

namespace Slot

/-- A field without a default. -/
def needed (part : Part) : Slot := ⟨part, false⟩

/-- A field that has no value by default. -/
def optional : Option Part → Slot
  | some part => ⟨part, false⟩
  | none => ⟨.nothing, true⟩

/-- A field that is an empty list by default. -/
def listed (items : List Part) : Slot := ⟨.list items, items.isEmpty⟩

/-- The initializer of a `for` loop, by default an empty statement. -/
def init : Stmt → Slot
  | .empty => ⟨.statement .empty, true⟩
  | statement => ⟨.statement statement, false⟩

end Slot

namespace Part

def names (values : List String) : List Part := values.map text

def expressions (values : List Expr) : List Part := values.map expression

def body (statements : List Stmt) : Part := .list (statements.map statement)

def cases (values : List Case) : Part := .list (values.map case)

end Part

def Expr.kind : Expr → ExprKind
  | .identifier _ => .identifier
  | .number _ => .number
  | .string _ => .string
  | .boolean _ => .boolean
  | .null => .null
  | .unary .. => .unary
  | .binary .. => .binary
  | .assign .. => .assign
  | .call .. => .call
  | .member .. => .member
  | .function .. => .function

/-- The fields of an expression behind its kind. -/
def Expr.slots : Expr → List Slot
  | .identifier name => [.needed (.text name)]
  | .number literal => [.needed (.text literal)]
  | .string value => [.needed (.text value)]
  | .boolean value => [.needed (.truth value)]
  | .null => []
  | .unary operator operand => [.needed (.text operator), .needed (.expression operand)]
  | .binary left operator right =>
    [.needed (.expression left), .needed (.text operator), .needed (.expression right)]
  | .assign target value => [.needed (.expression target), .needed (.expression value)]
  | .call callee arguments => [.needed (.expression callee), .listed (Part.expressions arguments)]
  | .member object property => [.needed (.expression object), .needed (.text property)]
  | .function name params body =>
    [.optional (name.map .text), .listed (Part.names params), .needed (.body body)]

/-- The fields of a statement behind its kind. -/
def Stmt.slots : Stmt → List Slot
  | .block body => [.needed (.body body)]
  | .branch test thenBody elseBody =>
    [.needed (.expression test), .needed (.body thenBody), .optional (elseBody.map .body)]
  | .whileLoop condition body => [.needed (.expression condition), .needed (.body body)]
  | .doLoop body condition => [.needed (.body body), .needed (.expression condition)]
  | .forLoop init condition iterator body =>
    [.init init, .optional (condition.map .expression), .optional (iterator.map .expression),
      .needed (.body body)]
  | .labeled label body => [.needed (.text label), .needed (.statement body)]
  | .breakJump label => [.optional (label.map .text)]
  | .continueJump label => [.optional (label.map .text)]
  | .goto target => [.needed (.text target)]
  | .ret value => [.optional (value.map .expression)]
  | .throw value => [.needed (.expression value)]
  | .expression value => [.needed (.expression value)]
  | .empty => []
  | .switch discriminant cases => [.needed (.expression discriminant), .needed (.cases cases)]
  | .function name params body =>
    [.needed (.text name), .listed (Part.names params), .needed (.body body)]

def Case.slots (case : Case) : List Slot :=
  [.optional (case.test.map .expression), .needed (.body case.body)]

/-- Names put before the fields. -/
def named (names : List String) (slots : List Slot) : List (Field Part) :=
  List.zipWith (fun name slot => ⟨name, slot.part, slot.spare⟩) names slots

/-- The fields of a part that is written as a record. Those with a kind begin with it. -/
def Part.fields? : Part → Option (List (Field Part))
  | .expression value => some (named ("kind" :: value.kind.fields)
      (.needed (.text value.kind.tag) :: value.slots))
  | .statement value => some (named ("kind" :: value.kind.fields)
      (.needed (.text value.kind.tag) :: value.slots))
  | .case value => some (named Case.fields value.slots)
  | _ => none

/-- The field with a written content. -/
def Field.holding (field : Field Part) (value : Json) : Field Json :=
  ⟨field.name, value, field.spare⟩

/-- The key and the value of a field. -/
def Field.member (field : Field Json) : String × Json := (field.name, field.content)

/-- The ways to write down a record with these fields. -/
inductive Written (fields : List (Field Json)) : Json → Prop where
  /-- Fields that hold their default may be missing, and keys that name no field may be added
  anywhere. -/
  | keyed {kept : List (Field Json)} {unknown members : List (String × Json)}
      (among : kept.Sublist fields) (left : ∀ field ∈ fields, field ∉ kept → field.spare = true)
      (foreign : ∀ member ∈ unknown, member.1 ∉ fields.map Field.name)
      (shuffled : members.Perm (kept.map Field.member ++ unknown)) :
      Written fields (.object members)
  /-- Fields that hold their default may be missing at the end. -/
  | positional {front back : List (Field Json)} (whole : fields = front ++ back)
      (left : ∀ field ∈ back, field.spare = true) :
      Written fields (.array (front.map Field.content))

/-- The value spells the part. A record is spelled by spelling its fields and writing them
down in one of the ways, so every record inside it has a choice of its own. -/
inductive Spells : Part → Json → Prop where
  | nothing : Spells .nothing .null
  | text {value : String} : Spells (.text value) (.string value)
  | truth {value : Bool} : Spells (.truth value) (.boolean value)
  | list {items : List Part} {values : List Json} (each : List.Forall₂ Spells items values) :
      Spells (.list items) (.array values)
  | record {part : Part} {fields : List (Field Part)} {contents : List Json} {json : Json}
      (isRecord : part.fields? = some fields)
      (each : List.Forall₂ Spells (fields.map Field.content) contents)
      (written : Written (List.zipWith Field.holding fields contents) json) : Spells part json

section Canonical

/-- The canonical form. -/
def Part.encode : Part → Json
  | .nothing => .null
  | .text value => .string value
  | .truth value => .boolean value
  | .expression value => value.encode
  | .statement value => value.encode
  | .case value => record Case.fields [encodeExpr? value.test, .array (encodeStmts value.body)]
  | .list items => .array (items.map encode)

theorem encode_list {α : Type} {part : α → Part} {encode : α → Json}
    (each : ∀ value, (part value).encode = encode value) (values : List α) :
    (Part.list (values.map part)).encode = .array (values.map encode) := by
  rw [Part.encode, List.map_map]
  exact congrArg Json.array (List.map_congr_left fun value _ => each value)

theorem encodeExprs_eq (values : List Expr) : encodeExprs values = values.map Expr.encode := by
  induction values with
  | nil => rfl
  | cons first rest ih => rw [encodeExprs, List.map_cons, ih]

theorem encodeStmts_eq (body : List Stmt) : encodeStmts body = body.map Stmt.encode := by
  induction body with
  | nil => rfl
  | cons first rest ih => rw [encodeStmts, List.map_cons, ih]

theorem encodeCases_eq (values : List Case) :
    encodeCases values = values.map fun value => (Part.case value).encode := by
  induction values with
  | nil => rfl
  | cons first rest ih =>
    rcases first with ⟨test, body⟩
    rw [encodeCases, List.map_cons, ih, Part.encode]
    rfl

theorem encode_names (values : List String) :
    (Part.list (Part.names values)).encode = encodeNames values :=
  encode_list (fun value => by rw [Part.encode]) values

theorem encode_expressions (values : List Expr) :
    (Part.list (Part.expressions values)).encode = .array (encodeExprs values) := by
  rw [encodeExprs_eq]
  exact encode_list (fun value => by rw [Part.encode]) values

theorem encode_body (body : List Stmt) : (Part.body body).encode = .array (encodeStmts body) := by
  rw [encodeStmts_eq]
  exact encode_list (fun statement => by rw [Part.encode]) body

theorem encode_cases (values : List Case) :
    (Part.cases values).encode = .array (encodeCases values) := by
  rw [encodeCases_eq]
  exact encode_list (fun _ => rfl) values

theorem encode_optional_text (value : Option String) :
    (Slot.optional (value.map .text)).part.encode = .ofOption .string value := by
  cases value <;> simp [Slot.optional, Part.encode, Json.ofOption]

theorem encode_optional_expression (value : Option Expr) :
    (Slot.optional (value.map .expression)).part.encode = encodeExpr? value := by
  cases value <;> simp [Slot.optional, Part.encode, encodeExpr?]

theorem encode_optional_body (value : Option (List Stmt)) :
    (Slot.optional (value.map .body)).part.encode = encodeBody? value := by
  cases value <;> simp [Slot.optional, Part.encode, encodeBody?, encode_body]

theorem encode_init (init : Stmt) : (Slot.init init).part.encode = init.encode := by
  cases init <;> simp [Slot.init, Part.encode]

theorem encode_named (names : List String) (slots : List Slot) :
    (named names slots).map (fun field => (field.name, field.content.encode)) =
      names.zip (slots.map fun slot => slot.part.encode) := by
  rw [named, List.map_zipWith, List.zip, List.zipWith_map_right]

theorem Expr.encode_slots (value : Expr) : value.encode =
    expressionRecord value.kind (value.slots.map fun slot => slot.part.encode) := by
  cases value <;> simp [Expr.encode, Expr.kind, Expr.slots, Slot.needed, Slot.listed, Part.encode,
    encode_names, encode_expressions, encode_body, encode_optional_text]

theorem Stmt.encode_slots (value : Stmt) : value.encode =
    statementRecord value.kind (value.slots.map fun slot => slot.part.encode) := by
  cases value <;> simp [Stmt.encode, Stmt.kind, Stmt.slots, Slot.needed, Slot.listed, Part.encode,
    encode_names, encode_body, encode_cases, encode_init, encode_optional_text,
    encode_optional_expression, encode_optional_body]

/-- The canonical form of a record holds the canonical forms of its fields, in order. -/
theorem encode_record {part : Part} {fields : List (Field Part)}
    (isRecord : part.fields? = some fields) :
    part.encode = .object (fields.map fun field => (field.name, field.content.encode)) := by
  cases part with
  | expression value =>
    cases isRecord
    rw [Part.encode, value.encode_slots, encode_named, List.map_cons, Slot.needed, Part.encode]
    rfl
  | statement value =>
    cases isRecord
    rw [Part.encode, value.encode_slots, encode_named, List.map_cons, Slot.needed, Part.encode]
    rfl
  | case value =>
    cases isRecord
    rw [Part.encode, encode_named, Case.slots, List.map_cons, encode_optional_expression,
      List.map_cons, Slot.needed, encode_body]
    rfl
  | nothing | text | truth | list => cases isRecord

/-- What holds of a part whenever it holds of its items or its fields holds of every part. -/
theorem Part.induction {motive : Part → Prop} (nothing : motive .nothing)
    (text : ∀ value, motive (.text value)) (truth : ∀ value, motive (.truth value))
    (list : ∀ items, (∀ item ∈ items, motive item) → motive (.list items))
    (record : ∀ part fields, part.fields? = some fields →
      (∀ field ∈ fields, motive field.content) → motive part) (part : Part) : motive part := by
  -- the canonical form of a field is less deep than that of its record
  induction deep : part.encode.depth using Nat.strong_induction_on generalizing part with
  | _ depth ih =>
    have asRecord : ∀ fields, part.fields? = some fields → motive part := by
      intro fields isRecord
      refine record part fields isRecord fun field member => ih _ ?_ field.content rfl
      rw [← deep, encode_record isRecord]
      exact Json.depth_lt_of_mem_members
        (List.mem_map.2 ⟨field, member, rfl⟩ : (field.name, field.content.encode) ∈ _)
    cases part with
    | nothing => exact nothing
    | text value => exact text value
    | truth value => exact truth value
    | list items =>
      refine list items fun item member => ih _ ?_ item rfl
      rw [← deep, Part.encode]
      exact Json.depth_lt_of_mem_items (List.mem_map_of_mem member)
    | expression value => exact asRecord _ rfl
    | statement value => exact asRecord _ rfl
    | case value => exact asRecord _ rfl

theorem written_shuffled {fields : List (Field Json)} {members : List (String × Json)}
    (shuffled : members.Perm (fields.map Field.member)) : Written fields (.object members) := by
  refine .keyed (List.Sublist.refl _) (fun field member absent => absurd member absent)
    (List.forall_mem_nil _) ?_
  rwa [List.append_nil]

/-- The canonical form is a spelling. -/
theorem spells_encode (part : Part) : Spells part part.encode := by
  induction part using Part.induction with
  | nothing =>
    rw [Part.encode]
    exact .nothing
  | text value =>
    rw [Part.encode]
    exact .text
  | truth value =>
    rw [Part.encode]
    exact .truth
  | list items ih =>
    rw [Part.encode]
    exact .list (List.forall₂_map_right_iff.2 (List.forall₂_same.2 ih))
  | record part fields isRecord ih =>
    have each : List.Forall₂ Spells (fields.map Field.content)
        (fields.map fun field => field.content.encode) :=
      List.forall₂_map_left_iff.2 (List.forall₂_map_right_iff.2 (List.forall₂_same.2 ih))
    have members : (fields.map fun field => (field.name, field.content.encode)) =
        (List.zipWith Field.holding fields (fields.map fun field => field.content.encode)).map
          Field.member := by
      rw [List.zipWith_map_right, List.zipWith_self, List.map_map]
      rfl
    rw [encode_record isRecord, members]
    exact .record isRecord each (written_shuffled (.refl _))

end Canonical

end Unnest.Script
