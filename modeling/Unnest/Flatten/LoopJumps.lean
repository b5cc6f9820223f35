import Unnest.Flatten.Error
import Unnest.Script.Weight

/-! Turning the breaks and continues that belong to a loop into gotos. Inner loops,
switches and functions bind jumps of their own and are left as they are. -/

namespace Unnest.Flatten

open Script

/-- Where the jumps of a loop go. Without a target, its breaks stay as they are. -/
structure LoopTargets where
  breakTo : Option String
  continueTo : String

/-- Statements of this kind own the jumps inside them. -/
def bindsJumps : Kind → Bool
  | .forLoop => true
  | .whileLoop => true
  | .doLoop => true
  | .switch => true
  | .function => true
  | _ => false

/-- The statement is, or contains, a break that belongs to the loop around it. -/
def breaksOut (statement : Stmt) : Bool :=
  if bindsJumps statement.kind then false
  else statement.kind == .breakJump ||
    statement.children.attach.any fun ⟨child, _⟩ => breaksOut child
termination_by sizeOf statement
decreasing_by exact Stmt.sizeOf_lt_of_mem_children ‹_›

/-- Some break of the body belongs to the loop around it. -/
def containsBreak (body : List Stmt) : Bool := body.any breaksOut

mutual

def redirectStmt (targets : LoopTargets) : Stmt → Except FlattenError Stmt
  | .breakJump (some label) => .error (.namedJump .breakJump label)
  | .continueJump (some label) => .error (.namedJump .continueJump label)
  | .breakJump none =>
    match targets.breakTo with
    | some target => .ok (.goto target)
    | none => .ok (.breakJump none)
  | .continueJump none => .ok (.goto targets.continueTo)
  | .block body => do return .block (← redirect targets body)
  | .branch test thenBody none => do return .branch test (← redirect targets thenBody) none
  | .branch test thenBody (some elseBody) => do
    let thenBody ← redirect targets thenBody
    return .branch test thenBody (some (← redirect targets elseBody))
  | .labeled label body => do return .labeled label (← redirectStmt targets body)
  | statement => .ok statement

/-- The body with its own breaks and continues turned into gotos. -/
def redirect (targets : LoopTargets) : List Stmt → Except FlattenError (List Stmt)
  | [] => .ok []
  | first :: rest => do
    let first ← redirectStmt targets first
    return first :: (← redirect targets rest)

end

/-- A value computed in two steps is there only if the first step gave one. -/
theorem bind_eq_ok {ε α β : Type} {first : Except ε α} {next : α → Except ε β} {result : β}
    (success : first >>= next = .ok result) :
    ∃ value, first = .ok value ∧ next value = .ok result := by
  cases first with
  | error fault => cases success
  | ok value => exact ⟨value, rfl, success⟩

theorem bind_eq_error {ε α β : Type} {first : Except ε α} {next : α → Except ε β} {fault : ε}
    (failure : first >>= next = .error fault) :
    first = .error fault ∨ ∃ value, first = .ok value ∧ next value = .error fault := by
  cases first with
  | error other =>
    cases failure
    exact .inl rfl
  | ok value => exact .inr ⟨value, rfl, failure⟩

mutual

theorem redirectStmt_weight (targets : LoopTargets) (statement redirected : Stmt)
    (success : redirectStmt targets statement = .ok redirected) :
    redirected.weight = statement.weight := by
  match statement with
  | .breakJump (some label) => simp [redirectStmt] at success
  | .continueJump (some label) => simp [redirectStmt] at success
  | .breakJump none =>
    cases target : targets.breakTo <;> simp [redirectStmt, target] at success <;> subst success <;>
      simp [Stmt.weight_children, Stmt.children]
  | .continueJump none =>
    simp [redirectStmt] at success
    subst success
    simp [Stmt.weight_children, Stmt.children]
  | .block body =>
    obtain ⟨body', redirects, result⟩ := bind_eq_ok success
    cases result
    simp [Stmt.weight_children, Stmt.children, redirect_weight targets body body' redirects]
  | .branch test thenBody none =>
    obtain ⟨thenBody', redirects, result⟩ := bind_eq_ok success
    cases result
    simp [Stmt.weight_children, Stmt.children, redirect_weight targets thenBody _ redirects]
  | .branch test thenBody (some elseBody) =>
    obtain ⟨thenBody', redirects, rest⟩ := bind_eq_ok success
    obtain ⟨elseBody', redirectsElse, result⟩ := bind_eq_ok rest
    cases result
    simp [Stmt.weight_children, Stmt.children, redirect_weight targets thenBody _ redirects,
      redirect_weight targets elseBody _ redirectsElse]
  | .labeled label body =>
    obtain ⟨body', redirects, result⟩ := bind_eq_ok success
    cases result
    have same := redirectStmt_weight targets body body' redirects
    simp [(Stmt.labeled label body').weight_children, (Stmt.labeled label body).weight_children,
      Stmt.children, same]
  | .whileLoop .. => cases success; rfl
  | .doLoop .. => cases success; rfl
  | .forLoop .. => cases success; rfl
  | .goto _ => cases success; rfl
  | .ret _ => cases success; rfl
  | .throw _ => cases success; rfl
  | .expression _ => cases success; rfl
  | .empty => cases success; rfl
  | .switch .. => cases success; rfl
  | .function .. => cases success; rfl

theorem redirect_weight (targets : LoopTargets) (body redirected : List Stmt)
    (success : redirect targets body = .ok redirected) : weight redirected = weight body := by
  match body with
  | [] => cases success; rfl
  | first :: rest =>
    obtain ⟨first', redirects, others⟩ := bind_eq_ok success
    obtain ⟨rest', redirectsRest, result⟩ := bind_eq_ok others
    cases result
    simp [redirectStmt_weight targets first first' redirects,
      redirect_weight targets rest rest' redirectsRest]

end

end Unnest.Flatten
