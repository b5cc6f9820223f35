import Unnest.Json.Basic
import Unnest.Script.Tag

/-! Reading trees from JSON values. A record is an object, with its keys in any order and
unknown ones passed over, or an array of its fields in order, with optional ones left off
at the end. Inside another statement or expression a kind may also be given by its number. -/

namespace Unnest.Script

/-- A field that must be present. -/
def required {α : Type} (decode : Json → Option α) (field : Option Json) : Option α :=
  field.bind decode

/-- A field that may be missing or null. -/
def optional {α : Type} (decode : Json → Option α) : Option Json → Option (Option α)
  | none => some none
  | some .null => some none
  | some value => (decode value).map some

/-- A field that may be missing but not null. -/
def withDefault {α : Type} (fallback : α) (decode : Json → Option α) : Option Json → Option α
  | none => some fallback
  | some value => decode value

def decodeString : Json → Option String
  | .string value => some value
  | _ => none

def decodeBoolean : Json → Option Bool
  | .boolean value => some value
  | _ => none

def decodeList {α : Type} (decode : Json → Option α) : Json → Option (List α)
  | .array items => items.mapM decode
  | _ => none

/-- The values of the named fields, in order, missing ones as `none`. -/
def fieldValues (names : List String) : Json → Option (List (Option Json))
  | .object members => some (names.map fun name => Json.lookup name members)
  | .array items =>
    if items.length ≤ names.length then
      some (items.map some ++ List.replicate (names.length - items.length) none)
    else none
  | _ => none

/-- The value that says of which kind a record is. -/
def kindValue : Json → Option Json
  | .object members => Json.lookup "kind" members
  | .array items => items.head?
  | _ => none

/-- A number that counts something: digits only, without a leading zero. -/
def decodeIndex : Json → Option Nat
  | .number literal => literal.toList.foldlM (fun n c =>
      if c.isDigit then some (n * 10 + (c.toNat - '0'.toNat)) else none) 0
  | _ => none

/-- A kind by its tag, or by its number where that is allowed. -/
def decodeKind {κ : Type} (all : List κ) (tag : κ → String) (nested : Bool) (value : Json) :
    Option κ :=
  match value with
  | .string name => all.find? fun kind => tag kind == name
  | other => if nested then (decodeIndex other).bind fun n => all[n]? else none

/-- The kind of a record and the values of its fields. -/
def decodeRecord {κ : Type} (all : List κ) (tag : κ → String) (fields : κ → List String)
    (nested : Bool) (value : Json) : Option (κ × List (Option Json)) := do
  let kind ← decodeKind all tag nested (← kindValue value)
  let values ← fieldValues ("kind" :: fields kind) value
  some (kind, values.tail)

mutual

def exprOf : (fuel : Nat) → (nested : Bool) → Json → Option Expr
  | 0, _, _ => none
  | fuel + 1, nested, value => do
    let expr := exprOf fuel true
    let body := decodeList (stmtOf fuel true)
    match ← decodeRecord ExprKind.all ExprKind.tag ExprKind.fields nested value with
    | (.identifier, [name]) => return .identifier (← required decodeString name)
    | (.number, [literal]) => return .number (← required decodeString literal)
    | (.string, [text]) => return .string (← required decodeString text)
    | (.boolean, [truth]) => return .boolean (← required decodeBoolean truth)
    | (.null, []) => return .null
    | (.unary, [operator, operand]) =>
      return .unary (← required decodeString operator) (← required expr operand)
    | (.binary, [left, operator, right]) =>
      return .binary (← required expr left) (← required decodeString operator)
        (← required expr right)
    | (.assign, [target, value]) =>
      return .assign (← required expr target) (← required expr value)
    | (.call, [callee, arguments]) =>
      return .call (← required expr callee) (← withDefault [] (decodeList expr) arguments)
    | (.member, [object, property]) =>
      return .member (← required expr object) (← required decodeString property)
    | (.function, [name, params, statements]) =>
      return .function (← optional decodeString name)
        (← withDefault [] (decodeList decodeString) params) (← required body statements)
    | _ => none

def stmtOf : (fuel : Nat) → (nested : Bool) → Json → Option Stmt
  | 0, _, _ => none
  | fuel + 1, nested, value => do
    let expr := exprOf fuel true
    let stmt := stmtOf fuel true
    let body := decodeList (stmtOf fuel true)
    match ← decodeRecord Kind.all Kind.tag Kind.fields nested value with
    | (.block, [statements]) => return .block (← required body statements)
    | (.branch, [test, thenBody, elseBody]) =>
      return .branch (← required expr test) (← required body thenBody)
        (← optional body elseBody)
    | (.whileLoop, [condition, statements]) =>
      return .whileLoop (← required expr condition) (← required body statements)
    | (.doLoop, [statements, condition]) =>
      return .doLoop (← required body statements) (← required expr condition)
    | (.forLoop, [init, condition, iterator, statements]) =>
      return .forLoop (← withDefault .empty stmt init) (← optional expr condition)
        (← optional expr iterator) (← required body statements)
    | (.labeled, [label, statement]) =>
      return .labeled (← required decodeString label) (← required stmt statement)
    | (.breakJump, [label]) => return .breakJump (← optional decodeString label)
    | (.continueJump, [label]) => return .continueJump (← optional decodeString label)
    | (.goto, [target]) => return .goto (← required decodeString target)
    | (.ret, [value]) => return .ret (← optional expr value)
    | (.throw, [value]) => return .throw (← required expr value)
    | (.expression, [value]) => return .expression (← required expr value)
    | (.empty, []) => return .empty
    | (.switch, [discriminant, cases]) =>
      return .switch (← required expr discriminant)
        (← required (decodeList (caseOf fuel)) cases)
    | (.function, [name, params, statements]) =>
      return .function (← required decodeString name)
        (← withDefault [] (decodeList decodeString) params) (← required body statements)
    | _ => none

def caseOf : (fuel : Nat) → Json → Option Case
  | 0, _ => none
  | fuel + 1, value => do
    match ← fieldValues Case.fields value with
    | [test, statements] =>
      return .clause (← optional (exprOf fuel true) test)
        (← required (decodeList (stmtOf fuel true)) statements)
    | _ => none

end

/-- An expression that stands on its own. A tree is no deeper than its value. -/
def Expr.decode (value : Json) : Option Expr := exprOf (value.depth + 1) false value

/-- A statement that stands on its own. -/
def Stmt.decode (value : Json) : Option Stmt := stmtOf (value.depth + 1) false value

/-- A body from an array of statements. -/
def decodeBody : Json → Option (List Stmt) := decodeList Stmt.decode

def LabeledBlock.decode (value : Json) : Option LabeledBlock := do
  match ← fieldValues LabeledBlock.fields value with
  | [name, statements] => return ⟨← required decodeString name, ← required decodeBody statements⟩
  | _ => none

/-- A block list from an array. -/
def decodeBlocks : Json → Option (List LabeledBlock) := decodeList LabeledBlock.decode

end Unnest.Script
