import Unnest.Flatten.Placement
import Unnest.Proofs.Flatten.OwnJumps
import Unnest.Proofs.Flatten.Remaining
import Unnest.Proofs.Script.Reword

/-! What flattening works on, in other words: the code that remains, the blocks that wait, the
layout of loops. Nothing that flattening asks about any of it depends on the words, apart from
which names are the same. -/

namespace Unnest.Flatten
open Script

section Map

variable {α β : Type} (f : α → β)

def Frame.map (frame : Frame α) : Frame β := ⟨frame.block.map f, frame.index, frame.afterInit⟩

def Continuation.map (code : Continuation α) : Continuation β := ⟨code.frames.map (Frame.map f)⟩

variable {code rest : Continuation α} {frame : Frame α} {current : α}

theorem Frame.current_map : (frame.map f).current = frame.current.map f := List.getElem?_map

theorem Continuation.push_map (code : Continuation α) (frame : Frame α) :
    (code.map f).push (frame.map f) = (code.push frame).map f := by
  unfold push
  simp only [Frame.map, List.length_map]
  split <;> rfl

theorem Continuation.ofBlock_map (block : List α) :
    ofBlock (block.map f) = (ofBlock block).map f :=
  push_map f empty ⟨block, 0, false⟩

theorem Continuation.pushFollowing_map (code : Continuation α) (frame : Frame α) :
    (code.map f).pushFollowing (frame.map f) = (code.pushFollowing frame).map f := by
  unfold pushFollowing Frame.following
  by_cases more : frame.index + 1 < frame.block.length
  · have same : (frame.map f).index + 1 < (frame.map f).block.length := by
      simpa [Frame.map] using more
    rw [if_pos more, if_pos same]
    exact push_map f code ⟨frame.block, frame.index + 1, false⟩
  · have same : ¬ (frame.map f).index + 1 < (frame.map f).block.length := by
      simpa [Frame.map] using more
    rw [if_neg more, if_neg same]

theorem Continuation.isEmpty_map : (code.map f).isEmpty = code.isEmpty := by
  simp [isEmpty, map]

/-- The statement that the code goes on with. -/
theorem Continuation.ahead_map :
    (code.map f).peek.bind Frame.current = (code.peek.bind Frame.current).map f := by
  obtain ⟨_ | ⟨first, frames⟩⟩ := code
  · rfl
  · exact Frame.current_map f

theorem Continuation.pop_map :
    (code.map f).pop = code.pop.map fun taken => (taken.1.map f, taken.2.map f) := by
  obtain ⟨_ | ⟨first, frames⟩⟩ := code <;> rfl

theorem Continuation.At.map (met : code.At frame rest current) :
    (code.map f).At (frame.map f) (rest.map f) (f current) where
  popped := by rw [Continuation.pop_map, met.popped, Option.map_some]
  here := by rw [Frame.current_map, met.here, Option.map_some]

end Map

section Data

variable (words : Rewording)

def Pending.reword (block : Pending) : Pending :=
  ⟨block.continuation.map (Stmt.reword words), words.name block.name, words.name block.fallThrough⟩

def Promise.reword (promise : Promise) : Promise := ⟨promise.block.reword words, promise.unlessBound⟩

def Successor.reword : Successor → Successor
  | .fresh name => .fresh (words.name name)
  | .next name => .next (words.name name)
  | .fallThrough name => .fallThrough (words.name name)

def Spot.reword (spot : Spot) : Spot := ⟨spot.reentry.map words.name, spot.reached⟩

def Arrival.reword : Arrival → Arrival
  | .opens label => .opens (words.name label)
  | .unwraps inner => .unwraps (inner.reword words)
  | .runs statement => .runs (statement.reword words)

def LoopHead.reword : LoopHead → LoopHead
  | .whileHead condition => .whileHead (words.expression condition)
  | .doHead condition => .doHead (words.expression condition)
  | .forHead init condition iterator =>
    .forHead (init.reword words) (condition.map words.expression) (iterator.map words.expression)

def LoopTargets.reword (targets : LoopTargets) : LoopTargets :=
  ⟨targets.breakTo.map words.name, words.name targets.continueTo⟩

def LoopPlan.reword (plan : LoopPlan) : LoopPlan :=
  ⟨Script.reword words plan.guard, plan.targets.reword words, plan.promises.map (Promise.reword words)⟩

/-- A failure for the same reason. -/
def FlattenError.reword : FlattenError → FlattenError
  | .duplicateLabel label => .duplicateLabel (words.name label)
  | .labelInSwitch label => .labelInSwitch (words.name label)
  | .repeatedLabel label => .repeatedLabel (words.name label)
  | .reservedLabel label => .reservedLabel (words.name label)
  | fault => fault

end Data

section Asked

variable {words : Rewording}

theorem Successor.name_reword (after : Successor) :
    (after.reword words).name = words.name after.name := by
  cases after <;> rfl

theorem Successor.promises_reword (after : Successor) (following : Continuation Stmt)
    (fallThrough : String) :
    (after.reword words).promises (following.map (Stmt.reword words)) (words.name fallThrough) =
      (after.promises following fallThrough).map (Promise.reword words) := by
  cases after <;> rfl

theorem Spot.jump_reword (spot : Spot) (label : String) :
    (spot.reword words).jump (words.name label) = Script.reword words (spot.jump label) := by
  unfold Spot.jump Spot.reword
  split <;> rfl

theorem Spot.after_reword (words : Rewording) (statements : List Stmt) :
    Spot.after (Script.reword words statements) = (Spot.after statements).reword words := by
  rw [Spot.after, fallsThrough_reword]
  rfl

theorem flatBranch_reword (words : Rewording) (test : Expr) (thenFlat : List Stmt)
    (elseFlat : Option (List Stmt))
    (label : String) :
    flatBranch (words.expression test) (reword words thenFlat) (elseFlat.map (reword words))
        (words.name label) = reword words (flatBranch test thenFlat elseFlat label) := by
  cases elseFlat <;> rfl

theorem exitGuard_reword (label : String) (condition : Expr) :
    exitGuard (words.name label) (words.expression condition) =
      (exitGuard label condition).reword words := by
  show Stmt.branch _ _ _ = Stmt.branch _ _ _
  rw [words.negate]
  rfl

/-- What is done with a statement depends only on whether its label is bound. -/
theorem arrive_reword {isBound isBound' : String → Bool}
    (same : ∀ label, isBound' (words.name label) = isBound label) (statement : Stmt) :
    arrive isBound' (statement.reword words) = (arrive isBound statement).reword words := by
  cases statement with
  | labeled label body =>
    cases body with
    | labeled inner body =>
      simp only [Stmt.reword, arrive, same]
      split <;> rfl
    | branch test thenBody elseBody =>
      cases elseBody <;>
      · simp only [Stmt.reword, arrive, same]
        split <;> rfl
    | function name params body =>
      obtain ⟨name', params', body', function⟩ :=
        Stmt.reword_function words name params body
      rw [Stmt.reword, function]
      simp only [arrive, same]
      split
      · exact congrArg Arrival.runs function.symm
      · rfl
    | _ =>
      simp only [Stmt.reword, arrive, same]
      split <;> rfl
  | branch test thenBody elseBody => cases elseBody <;> rfl
  | function name params body =>
    obtain ⟨name', params', body', function⟩ :=
      Stmt.reword_function words name params body
    rw [function]
    exact congrArg Arrival.runs function.symm
  | _ => rfl

theorem LoopHead.labeledInit_reword (head : LoopHead) :
    (head.reword words).labeledInit = head.labeledInit := by
  cases head with
  | forHead init condition iterator =>
    rw [LoopHead.reword, labeledInit, labeledInit, Stmt.containsLabels_reword, Stmt.kind_reword]
  | _ => rfl

theorem LoopHead.pendingInit_reword (head : LoopHead) (afterInit : Bool) :
    (head.reword words).pendingInit afterInit = Script.reword words (head.pendingInit afterInit) := by
  cases head with
  | forHead init condition iterator =>
    cases init with
    | branch test thenBody elseBody => cases elseBody <;> cases afterInit <;> rfl
    | function name params body =>
      obtain ⟨name', params', body', function⟩ :=
        Stmt.reword_function words name params body
      cases afterInit <;> simp [LoopHead.reword, pendingInit, function, Script.reword]
    | _ => cases afterInit <;> rfl
  | _ => rfl

theorem LoopHead.resumption_reword (head : LoopHead) (frame : Frame Stmt) :
    (head.reword words).resumption (frame.map (Stmt.reword words)) =
      (head.resumption frame).map (Stmt.reword words) := by
  cases head <;> rfl

theorem breaksOut_reword (statement : Stmt) :
    breaksOut (statement.reword words) = breaksOut statement := by
  induction statement using Stmt.childInduction with
  | step parent ih =>
    rw [breaksOut_eq, breaksOut_eq parent, Stmt.kind_reword, Stmt.children_reword, reword_eq_map,
      List.any_map]
    congr 2
    rw [Bool.eq_iff_iff, List.any_eq_true, List.any_eq_true]
    exact exists_congr fun child => and_congr_right fun member => by rw [Function.comp, ih child member]

theorem containsBreak_reword (body : List Stmt) :
    containsBreak (reword words body) = containsBreak body := by
  rw [containsBreak, containsBreak, reword_eq_map, List.any_map]
  exact List.any_congr rfl breaksOut_reword

theorem redirect_reword_of {targets : LoopTargets} {body : List Stmt}
    (each : ∀ statement ∈ body, redirectStmt (targets.reword words) (statement.reword words) =
      ((redirectStmt targets statement).map (Stmt.reword words)).mapError
        (FlattenError.reword words)) :
    redirect (targets.reword words) (reword words body) =
      ((redirect targets body).map (reword words)).mapError (FlattenError.reword words) := by
  induction body with
  | nil => rfl
  | cons first rest ih =>
    have here := each first (List.mem_cons_self ..)
    have later := ih fun statement member => each statement (List.mem_cons_of_mem _ member)
    rw [reword, redirect, redirect, here, later]
    cases redirectStmt targets first with
    | error fault => rfl
    | ok result => cases redirect targets rest <;> rfl

theorem redirectStmt_reword (targets : LoopTargets) (statement : Stmt) :
    redirectStmt (targets.reword words) (statement.reword words) =
      ((redirectStmt targets statement).map (Stmt.reword words)).mapError
        (FlattenError.reword words) := by
  induction statement using Stmt.childInduction with
  | step parent ih =>
    cases parent with
    | block body =>
      have inside : redirect (targets.reword words) (reword words body) = _ :=
        redirect_reword_of ih
      rw [Stmt.reword, redirectStmt, redirectStmt, inside]
      cases redirect targets body <;> rfl
    | branch test thenBody elseBody =>
      have inThen := redirect_reword_of fun child member => ih child (List.mem_append_left _ member)
      cases elseBody with
      | none =>
        rw [Stmt.reword, redirectStmt, redirectStmt, inThen]
        cases redirect targets thenBody <;> rfl
      | some elseBody =>
        have inElse : redirect (targets.reword words) (reword words elseBody) = _ :=
          redirect_reword_of fun child member => ih child (List.mem_append_right _ member)
        rw [Stmt.reword, redirectStmt, redirectStmt, inThen, inElse]
        cases redirect targets thenBody with
        | error fault => rfl
        | ok result => cases redirect targets elseBody <;> rfl
    | labeled label body =>
      rw [Stmt.reword, redirectStmt, redirectStmt, ih body (List.mem_singleton_self _)]
      cases redirectStmt targets body <;> rfl
    | breakJump label =>
      cases label with
      | some label => rfl
      | none =>
        rw [Stmt.reword, redirectStmt, redirectStmt, LoopTargets.reword]
        cases targets.breakTo <;> rfl
    | continueJump label => cases label <;> rfl
    | function name params body =>
      obtain ⟨name', params', body', function⟩ :=
        Stmt.reword_function words name params body
      rw [function]
      exact congrArg Except.ok function.symm
    | _ => rfl

theorem redirect_reword (targets : LoopTargets) (body : List Stmt) :
    redirect (targets.reword words) (reword words body) =
      ((redirect targets body).map (reword words)).mapError (FlattenError.reword words) :=
  redirect_reword_of fun statement _ => redirectStmt_reword targets statement

end Asked

end Unnest.Flatten
