import Unnest.Flatten.LoopJumps
import Unnest.Flatten.Run
import Unnest.Script.Labels

/-! How a loop that contains labels is taken apart. Once it is the first thing in a block,
that block's name is the place to jump back to, and the loop becomes a guard, its body
with redirected jumps, and the blocks that the redirected jumps lead to. -/

namespace Unnest.Flatten

open Script

/-- What tells one loop from another, apart from its body. -/
inductive LoopHead where
  | whileHead (condition : Expr)
  | doHead (condition : Expr)
  | forHead (init : Stmt) (condition iterator : Option Expr)

/-- A loop as its head and its body. -/
def loopOf : Stmt → Option (LoopHead × List Stmt)
  | .whileLoop condition body => some (.whileHead condition, body)
  | .doLoop body condition => some (.doHead condition, body)
  | .forLoop init condition iterator body => some (.forHead init condition iterator, body)
  | _ => none

theorem weight_of_loopOf {statement : Stmt} {head : LoopHead} {body : List Stmt}
    (loop : loopOf statement = some (head, body)) : weight body + 2 ≤ statement.weight := by
  rw [Stmt.weight_children]
  cases statement <;> simp only [loopOf, reduceCtorEq, Option.some.injEq, Prod.mk.injEq] at loop <;>
    obtain ⟨rfl, rfl⟩ := loop <;> simp [Stmt.children] <;> omega

namespace LoopHead

/-- The kind of an initializer with labels in it, which no loop can have. -/
def labeledInit : LoopHead → Option Kind
  | .forHead init _ _ => if init.containsLabels then some init.kind else none
  | _ => none

/-- The initializer, as long as it has not run. -/
def pendingInit (afterInit : Bool) : LoopHead → List Stmt
  | .forHead .empty _ _ => []
  | .forHead init _ _ => if afterInit then [] else [init]
  | _ => []

/-- Where to resume the loop once its initializer has run. -/
def resumption (frame : Frame Stmt) : LoopHead → Frame Stmt
  | .forHead .. => frame.withInitConsumed
  | _ => frame

end LoopHead

/-- How a loop at the start of a block is laid out. -/
structure LoopPlan where
  /-- Leaves the loop when its condition fails. -/
  guard : List Stmt
  /-- Where the jumps of the body lead. The end of the body goes where a continue does. -/
  targets : LoopTargets
  /-- The blocks to schedule once the body has been flattened, in order. -/
  promises : List Promise

/-- Leave for the label when the condition fails. -/
def exitGuard (label : String) (condition : Expr) : Stmt :=
  .ifThen condition.negate [.goto label]

/-- Lay out a loop whose block has the given name. -/
def planLoop (head : LoopHead) (body : List Stmt) (loopName : String)
    (following : Continuation Stmt) (fallThrough : String) : RunM LoopPlan :=
  match head with
  | .whileHead condition => do
    let after ← labelAfter following fallThrough
    reportEvent (.inliningWhile loopName after)
    return {
      guard := [exitGuard after.name condition]
      targets := ⟨some after.name, loopName⟩
      promises := after.promises following fallThrough }
  | .doHead condition => do
    let conditionLabel ← freshName
    let check := Stmt.ifThen condition [.goto loopName]
    if containsBreak body then
      let after ← labelAfter following fallThrough
      reportEvent (.inliningDoWithBreak loopName conditionLabel after)
      return {
        guard := []
        targets := ⟨some after.name, conditionLabel⟩
        promises := after.promises following fallThrough ++
          [⟨⟨.ofBlock [check], conditionLabel, after.name⟩, false⟩] }
    else
      reportEvent (.inliningDo loopName conditionLabel)
      return {
        guard := []
        targets := ⟨none, conditionLabel⟩
        promises := [⟨⟨following.push ⟨[check], 0, false⟩, conditionLabel, fallThrough⟩, false⟩] }
  | .forHead _ condition iterator => do
    let iteratorLabel ← (match iterator with
      | some _ => freshName
      | none => pure loopName)
    let after ← labelAfter following fallThrough
    reportEvent (.inliningFor loopName iteratorLabel after)
    let step := iterator.toList.map fun iterator =>
      ⟨⟨.ofBlock [.expression iterator, .goto loopName], iteratorLabel, loopName⟩, false⟩
    return {
      guard := (condition.map (exitGuard after.name)).toList
      targets := ⟨some after.name, iteratorLabel⟩
      promises := step ++ after.promises following fallThrough }

/-- End the current block with a jump to a new block that starts at the loop. -/
def splitBeforeLoop (loop : Frame Stmt) (rest : Continuation Stmt) (fallThrough : String) :
    RunM (List Stmt) := do
  let loopTop ← freshName
  reportEvent (.loopMoved loopTop)
  enqueue ⟨rest.push loop, loopTop, fallThrough⟩
  return [.goto loopTop]

end Unnest.Flatten
