import Unnest.Json.Basic
import Unnest.Script.Tag

/-! The canonical JSON form of a tree: an object with the kind first and then every field
in order, null where an optional one is missing. -/

namespace Unnest.Script

/-- Field names paired with their values. -/
def record (names : List String) (values : List Json) : Json := .object (names.zip values)

def statementRecord (kind : Kind) (values : List Json) : Json :=
  record ("kind" :: kind.fields) (.string kind.tag :: values)

def expressionRecord (kind : ExprKind) (values : List Json) : Json :=
  record ("kind" :: kind.fields) (.string kind.tag :: values)

def encodeNames (names : List String) : Json := .ofList .string names

mutual

def Expr.encode : Expr → Json
  | .identifier name => expressionRecord .identifier [.string name]
  | .number literal => expressionRecord .number [.string literal]
  | .string value => expressionRecord .string [.string value]
  | .boolean value => expressionRecord .boolean [.boolean value]
  | .null => expressionRecord .null []
  | .unary operator operand => expressionRecord .unary [.string operator, operand.encode]
  | .binary left operator right =>
    expressionRecord .binary [left.encode, .string operator, right.encode]
  | .assign target value => expressionRecord .assign [target.encode, value.encode]
  | .call callee arguments =>
    expressionRecord .call [callee.encode, .array (encodeExprs arguments)]
  | .member object property => expressionRecord .member [object.encode, .string property]
  | .function name params body =>
    expressionRecord .function
      [.ofOption .string name, encodeNames params, .array (encodeStmts body)]

def encodeExprs : List Expr → List Json
  | [] => []
  | first :: rest => first.encode :: encodeExprs rest

def encodeExpr? : Option Expr → Json
  | none => .null
  | some expression => expression.encode

def Stmt.encode : Stmt → Json
  | .block body => statementRecord .block [.array (encodeStmts body)]
  | .branch test thenBody elseBody =>
    statementRecord .branch
      [test.encode, .array (encodeStmts thenBody), encodeBody? elseBody]
  | .whileLoop condition body =>
    statementRecord .whileLoop [condition.encode, .array (encodeStmts body)]
  | .doLoop body condition =>
    statementRecord .doLoop [.array (encodeStmts body), condition.encode]
  | .forLoop init condition iterator body =>
    statementRecord .forLoop
      [init.encode, encodeExpr? condition, encodeExpr? iterator, .array (encodeStmts body)]
  | .labeled label body => statementRecord .labeled [.string label, body.encode]
  | .breakJump label => statementRecord .breakJump [.ofOption .string label]
  | .continueJump label => statementRecord .continueJump [.ofOption .string label]
  | .goto target => statementRecord .goto [.string target]
  | .ret value => statementRecord .ret [encodeExpr? value]
  | .throw value => statementRecord .throw [value.encode]
  | .expression value => statementRecord .expression [value.encode]
  | .empty => statementRecord .empty []
  | .switch discriminant cases =>
    statementRecord .switch [discriminant.encode, .array (encodeCases cases)]
  | .function name params body =>
    statementRecord .function
      [.string name, encodeNames params, .array (encodeStmts body)]

def encodeStmts : List Stmt → List Json
  | [] => []
  | first :: rest => first.encode :: encodeStmts rest

def encodeBody? : Option (List Stmt) → Json
  | none => .null
  | some body => .array (encodeStmts body)

def encodeCases : List Case → List Json
  | [] => []
  | .clause test body :: rest =>
    record Case.fields [encodeExpr? test, .array (encodeStmts body)] :: encodeCases rest

end

/-- A body as an array. -/
def encodeBody (body : List Stmt) : Json := .array (encodeStmts body)

def LabeledBlock.encode (block : LabeledBlock) : Json :=
  record LabeledBlock.fields [.string block.name, encodeBody block.statements]

/-- A block list as an array. -/
def encodeBlocks (blocks : List LabeledBlock) : Json := .ofList LabeledBlock.encode blocks

end Unnest.Script
