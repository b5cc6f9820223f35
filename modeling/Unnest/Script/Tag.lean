import Unnest.Script.Basic

/-! How trees are spelled in JSON: the tag of each kind and the names of its fields, in
the order in which they are written. -/

namespace Unnest.Script

/-- The kinds of statements in the order in which a number counts them. -/
def Kind.all : List Kind :=
  [.block, .branch, .whileLoop, .doLoop, .forLoop, .labeled, .breakJump, .continueJump,
    .goto, .ret, .throw, .expression, .empty, .switch, .function]

def Kind.tag : Kind → String
  | .block => "block"
  | .branch => "if"
  | .whileLoop => "while"
  | .doLoop => "doWhile"
  | .forLoop => "for"
  | .labeled => "labeled"
  | .breakJump => "break"
  | .continueJump => "continue"
  | .goto => "goto"
  | .ret => "return"
  | .throw => "throw"
  | .expression => "expression"
  | .empty => "empty"
  | .switch => "switch"
  | .function => "function"

def Kind.fields : Kind → List String
  | .block => ["body"]
  | .branch => ["test", "thenBranch", "elseBranch"]
  | .whileLoop => ["condition", "body"]
  | .doLoop => ["body", "condition"]
  | .forLoop => ["init", "condition", "iterator", "body"]
  | .labeled => ["label", "body"]
  | .breakJump => ["label"]
  | .continueJump => ["label"]
  | .goto => ["target"]
  | .ret => ["value"]
  | .throw => ["value"]
  | .expression => ["expression"]
  | .empty => []
  | .switch => ["discriminant", "cases"]
  | .function => ["name", "params", "body"]

/-- The constructor of an expression, without its parts. -/
inductive ExprKind where
  | identifier | number | string | boolean | null | unary | binary | assign | call | member
  | function
  deriving DecidableEq, Repr

def ExprKind.all : List ExprKind :=
  [.identifier, .number, .string, .boolean, .null, .unary, .binary, .assign, .call, .member,
    .function]

def ExprKind.tag : ExprKind → String
  | .identifier => "identifier"
  | .number => "number"
  | .string => "string"
  | .boolean => "boolean"
  | .null => "null"
  | .unary => "unary"
  | .binary => "binary"
  | .assign => "assign"
  | .call => "call"
  | .member => "member"
  | .function => "function"

def ExprKind.fields : ExprKind → List String
  | .identifier => ["name"]
  | .number => ["value"]
  | .string => ["value"]
  | .boolean => ["value"]
  | .null => []
  | .unary => ["operator", "operand"]
  | .binary => ["left", "operator", "right"]
  | .assign => ["target", "value"]
  | .call => ["callee", "arguments"]
  | .member => ["object", "property"]
  | .function => ["name", "params", "body"]

def Case.fields : List String := ["test", "body"]

def LabeledBlock.fields : List String := ["name", "statements"]

end Unnest.Script
