import Unnest.Script.Basic

/-! Whether control can run off the end of a statement list. Only the last statement
decides, and a list is closed by a jump, a return, a throw, a closed block, or a branch
with two closed alternatives. -/

namespace Unnest.Script

mutual

/-- Control can continue after the statement. -/
def Stmt.fallsThrough : Stmt → Bool
  | .ret _ => false
  | .throw _ => false
  | .goto _ => false
  | .block body => fallsThrough body
  | .branch _ thenBody (some elseBody) => fallsThrough thenBody || fallsThrough elseBody
  | _ => true

/-- Control can run off the end of the list. -/
def fallsThrough : List Stmt → Bool
  | [] => true
  | [last] => last.fallsThrough
  | _ :: next :: rest => fallsThrough (next :: rest)

end

theorem fallsThrough_append_singleton (front : List Stmt) (last : Stmt) :
    fallsThrough (front ++ [last]) = last.fallsThrough := by
  induction front with
  | nil => simp [fallsThrough]
  | cons first rest ih =>
    cases rest with
    | nil => simp [fallsThrough]
    | cons second rest => simpa [fallsThrough] using ih

/-- A missing alternative falls through. -/
theorem fallsThrough_branch (test : Expr) (thenBody : List Stmt) (elseBody : Option (List Stmt)) :
    (Stmt.branch test thenBody elseBody).fallsThrough =
      (fallsThrough thenBody || fallsThrough (elseBody.getD [])) := by
  cases elseBody with
  | none => simp [Stmt.fallsThrough, fallsThrough]
  | some elseBody => rw [Stmt.fallsThrough, Option.getD_some]

end Unnest.Script
