import Unnest.Script.Basic
import Unnest.Text.Quoted

/-! The printed form of an expression. Operators, call targets and member objects put
parentheses around an operand that is itself an operator expression or a function. -/

namespace Unnest.Script

open Text

namespace Expr

/-- The expression takes parentheses where it stands as an operand. -/
def isCompound : Expr → Bool
  | .binary .. => true
  | .assign .. => true
  | .function .. => true
  | _ => false

/-- Text in operand position. -/
def operandText (compound : Bool) (text : String) : String :=
  if compound then "(" ++ text ++ ")" else text

mutual

def text : Expr → String
  | .identifier name => name
  | .number literal => literal
  | .string value => quoted value
  | .boolean true => "true"
  | .boolean false => "false"
  | .null => "null"
  | .unary operator operand => operator ++ operandText operand.isCompound operand.text
  | .binary left operator right =>
    operandText left.isCompound left.text ++ " " ++ operator ++ " " ++
      operandText right.isCompound right.text
  | .assign target value => target.text ++ " = " ++ value.text
  | .call callee arguments =>
    operandText callee.isCompound callee.text ++ "(" ++ argumentsText arguments ++ ")"
  | .member object property => operandText object.isCompound object.text ++ "." ++ property
  | .function name params _ =>
    "function " ++ name.getD "" ++ "(" ++ ", ".intercalate params ++ ") \x7b ... \x7d"

/-- Arguments, separated by a comma and a space. -/
def argumentsText : List Expr → String
  | [] => ""
  | [last] => last.text
  | first :: second :: rest => first.text ++ ", " ++ argumentsText (second :: rest)

end

end Expr

/-- The text of an expression that may be missing. -/
def optionalText (expression : Option Expr) : String :=
  (expression.map Expr.text).getD ""

end Unnest.Script
