/-! Statement trees: expressions, statements, switch cases and the labeled blocks
that flattening produces. Statement lists are plain lists, so a nested body is
read with the list operations. -/

namespace Unnest.Script

mutual

/-- An expression. Only its printed form and its negation ever matter here. -/
inductive Expr where
  | identifier (name : String)
  | number (literal : String)
  | string (value : String)
  | boolean (value : Bool)
  | null
  | unary (operator : String) (operand : Expr)
  | binary (left : Expr) (operator : String) (right : Expr)
  | assign (target value : Expr)
  | call (callee : Expr) (arguments : List Expr)
  | member (object : Expr) (property : String)
  | function (name : Option String) (params : List String) (body : List Stmt)

/-- A statement. A missing initializer of a `for` loop is the empty statement. -/
inductive Stmt where
  | block (body : List Stmt)
  | branch (test : Expr) (thenBody : List Stmt) (elseBody : Option (List Stmt))
  | whileLoop (condition : Expr) (body : List Stmt)
  | doLoop (body : List Stmt) (condition : Expr)
  | forLoop (init : Stmt) (condition iterator : Option Expr) (body : List Stmt)
  | labeled (label : String) (body : Stmt)
  | breakJump (label : Option String)
  | continueJump (label : Option String)
  | goto (target : String)
  | ret (value : Option Expr)
  | throw (value : Expr)
  | expression (value : Expr)
  | empty
  | switch (discriminant : Expr) (cases : List Case)
  | function (name : String) (params : List String) (body : List Stmt)

/-- One case of a switch, or its default when there is no test. -/
inductive Case where
  | clause (test : Option Expr) (body : List Stmt)

end

instance : Inhabited Expr := ⟨.null⟩
instance : Inhabited Stmt := ⟨.empty⟩
instance : Inhabited Case := ⟨.clause none []⟩

/-- One addressable unit of flattened output. -/
structure LabeledBlock where
  name : String
  statements : List Stmt

/-- The constructor of a statement, without its parts. -/
inductive Kind where
  | block | branch | whileLoop | doLoop | forLoop | labeled | breakJump | continueJump
  | goto | ret | throw | expression | empty | switch | function
  deriving DecidableEq, Repr

/-- The keyword by which a kind of statement is reported. -/
def Kind.name : Kind → String
  | .block => "block"
  | .branch => "if"
  | .whileLoop => "while"
  | .doLoop => "do-while"
  | .forLoop => "for"
  | .labeled => "labeled"
  | .breakJump => "break"
  | .continueJump => "continue"
  | .goto => "goto"
  | .ret => "return"
  | .throw => "throw"
  | .expression => "expression"
  | .empty => "empty"
  | .switch => "switch"
  | .function => "function"

namespace Case

def test : Case → Option Expr
  | .clause test _ => test

def body : Case → List Stmt
  | .clause _ body => body

end Case

/-- Logical negation, the one expression that flattening builds. -/
def Expr.negate (operand : Expr) : Expr := .unary "!" operand

namespace Stmt

def kind : Stmt → Kind
  | .block _ => .block
  | .branch .. => .branch
  | .whileLoop .. => .whileLoop
  | .doLoop .. => .doLoop
  | .forLoop .. => .forLoop
  | .labeled .. => .labeled
  | .breakJump _ => .breakJump
  | .continueJump _ => .continueJump
  | .goto _ => .goto
  | .ret _ => .ret
  | .throw _ => .throw
  | .expression _ => .expression
  | .empty => .empty
  | .switch .. => .switch
  | .function .. => .function

/-- Direct child statements in source order. A function body belongs to the
function, so a function has no children. -/
def children : Stmt → List Stmt
  | .block body => body
  | .branch _ thenBody elseBody => thenBody ++ elseBody.getD []
  | .whileLoop _ body => body
  | .doLoop body _ => body
  | .forLoop init _ _ body => init :: body
  | .labeled _ body => [body]
  | .switch _ cases => cases.flatMap Case.body
  | _ => []

/-- A branch without an alternative. -/
def ifThen (test : Expr) (thenBody : List Stmt) : Stmt := .branch test thenBody none

theorem sizeOf_lt_of_mem_children {child parent : Stmt} (member : child ∈ parent.children) :
    sizeOf child < sizeOf parent := by
  cases parent <;> simp only [children, List.not_mem_nil] at member
  case block body =>
    have := List.sizeOf_lt_of_mem member
    rw [block.sizeOf_spec]
    omega
  case branch test thenBody elseBody =>
    rw [branch.sizeOf_spec]
    rcases List.mem_append.1 member with inThen | inElse
    · have := List.sizeOf_lt_of_mem inThen
      omega
    · cases elseBody with
      | none => exact absurd inElse List.not_mem_nil
      | some body =>
        have := List.sizeOf_lt_of_mem (show child ∈ body from inElse)
        rw [Option.some.sizeOf_spec]
        omega
  case whileLoop condition body =>
    have := List.sizeOf_lt_of_mem member
    rw [whileLoop.sizeOf_spec]
    omega
  case doLoop body condition =>
    have := List.sizeOf_lt_of_mem member
    rw [doLoop.sizeOf_spec]
    omega
  case forLoop init condition iterator body =>
    rw [forLoop.sizeOf_spec]
    rcases List.mem_cons.1 member with same | inBody
    · rw [same]
      omega
    · have := List.sizeOf_lt_of_mem inBody
      omega
  case labeled label body =>
    rw [List.mem_singleton.1 member, labeled.sizeOf_spec]
    omega
  case switch discriminant cases =>
    obtain ⟨⟨test, body⟩, inCases, inBody⟩ := List.mem_flatMap.1 member
    have smaller := List.sizeOf_lt_of_mem inCases
    have inside := List.sizeOf_lt_of_mem (show child ∈ body from inBody)
    rw [Case.clause.sizeOf_spec] at smaller
    rw [switch.sizeOf_spec]
    omega

/-- What holds of a statement whenever it holds of its children holds of every statement. -/
theorem childInduction {motive : Stmt → Prop}
    (step : ∀ parent, (∀ child ∈ parent.children, motive child) → motive parent)
    (statement : Stmt) : motive statement :=
  step statement fun child member =>
    have := sizeOf_lt_of_mem_children member
    childInduction step child
termination_by sizeOf statement

end Stmt

end Unnest.Script
