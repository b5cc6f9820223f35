import Unnest.Proofs.Flatten.Carried
import Unnest.Proofs.Flatten.Defers

/-! What code still has to put into blocks. The initializer of a loop that has been moved to
a block of its own is left out, since it was put into a block when the loop was moved. What
can be read off a statement's blocks therefore holds of the statement. -/

namespace Unnest.Flatten
open Script

/-- A statement whose initializer has been put into a block already. -/
def withoutInit : Stmt → Stmt
  | .labeled label body => .labeled label (withoutInit body)
  | .forLoop _ condition iterator body => .forLoop .empty condition iterator body
  | statement => statement

/-- What a statement still has to put into blocks. -/
def unrunOf (afterInit : Bool) (statement : Stmt) : Stmt :=
  if afterInit then withoutInit statement else statement

theorem unrunOf_block (afterInit : Bool) (body : List Stmt) :
    unrunOf afterInit (.block body) = .block body := by
  cases afterInit <;> rfl

theorem unrunOf_branch (afterInit : Bool) (test : Expr) (thenBody : List Stmt)
    (elseBody : Option (List Stmt)) :
    unrunOf afterInit (.branch test thenBody elseBody) = .branch test thenBody elseBody := by
  cases afterInit <;> rfl

def Frame.unrun (frame : Frame Stmt) : List Stmt :=
  match frame.remaining with
  | [] => []
  | first :: rest => unrunOf frame.afterInit first :: rest

/-- What remains of the code, without the initializers that have been put into blocks. -/
def Continuation.unrun (code : Continuation Stmt) : List Stmt := code.frames.flatMap Frame.unrun

section Unrun

variable {code rest : Continuation Stmt} {frame : Frame Stmt} {current : Stmt}

@[simp] theorem unrun_push (code : Continuation Stmt) (frame : Frame Stmt) :
    (code.push frame).unrun = frame.unrun ++ code.unrun := by
  unfold Continuation.push
  split
  next => rfl
  next past =>
    have none : frame.unrun = [] := by
      rw [Frame.unrun, Frame.remaining, List.drop_eq_nil_of_le (Nat.le_of_not_lt past)]
    rw [none, List.nil_append]

theorem unrun_plain (block : List Stmt) (index : Nat) :
    Frame.unrun ⟨block, index, false⟩ = block.drop index := by
  rw [Frame.unrun, Frame.remaining]
  cases block.drop index <;> rfl

@[simp] theorem unrun_ofBlock (block : List Stmt) : (Continuation.ofBlock block).unrun = block := by
  rw [Continuation.ofBlock, unrun_push, unrun_plain, List.drop_zero]
  exact List.append_nil _

@[simp] theorem unrun_pushFollowing (code : Continuation Stmt) (frame : Frame Stmt) :
    (code.pushFollowing frame).unrun = frame.block.drop (frame.index + 1) ++ code.unrun := by
  unfold Continuation.pushFollowing Frame.following
  by_cases more : frame.index + 1 < frame.block.length
  · simp only [if_pos more, unrun_push, unrun_plain]
  · rw [if_neg more, List.drop_eq_nil_of_le (Nat.le_of_not_lt more), List.nil_append]

theorem unrun_of_at (met : code.At frame rest current) : code.unrun =
    unrunOf frame.afterInit current :: (rest.pushFollowing frame).unrun := by
  rw [unrun_pushFollowing, Continuation.unrun, met.frames, List.flatMap_cons, Frame.unrun,
    met.remaining_frame]
  rfl

theorem unrun_eq_nil (nothing : code.remaining = []) : code.unrun = [] := by
  rw [Continuation.remaining, List.flatMap_eq_nil_iff] at nothing
  rw [Continuation.unrun, List.flatMap_eq_nil_iff]
  intro frame member
  rw [Frame.unrun, nothing frame member]

end Unrun

/-- Taking a statement apart loses nothing that the property is about. Of a loop, it asks
something of the initializer, as long as that has not run, and something of the body, which
shows in the body with redirected jumps. -/
structure Recovered (inside : List Stmt → Prop) (holds : Stmt → Prop) : Prop where
  block {body : List Stmt} : (∀ statement ∈ body, holds statement) → holds (.block body)
  branch {test : Expr} {thenBody : List Stmt} {elseBody : Option (List Stmt)} :
    holds (.branch test thenBody elseBody) ↔
      (∀ statement ∈ thenBody, holds statement) ∧ ∀ statement ∈ elseBody.getD [], holds statement
  labeled {label : String} {body : Stmt} : holds (.labeled label body) ↔ holds body
  withoutInit {statement : Stmt} : statement.containsLabels = false → holds statement →
    holds (withoutInit statement)
  loop {loop : Stmt} {head : LoopHead} {body : List Stmt} {afterInit : Bool} :
    loop.containsLabels = true → loopOf loop = some (head, body) → head.labeledInit = none →
      (holds (unrunOf afterInit loop) ↔
        (∀ statement ∈ head.pendingInit afterInit, holds statement) ∧ inside body)
  redirect {targets : LoopTargets} {body inner : List Stmt} :
    redirect targets body = .ok inner → (targets.breakTo = none → containsBreak body = false) →
      (∀ statement ∈ inner, holds statement) → inside body

section Recovered

variable {inside : List Stmt → Prop} {holds : Stmt → Prop} {stem fallThrough : String}
  {ledger later : Ledger} {code rest : Continuation Stmt} {frame : Frame Stmt}
  {current inner : Stmt} {spot : Spot} {out : List Stmt}

theorem Recovered.passed (recovered : Recovered inside holds) {isBound : String → Bool}
    (passed : Passed isBound current inner) (afterInit : Bool) :
    holds (unrunOf afterInit current) ↔ holds (unrunOf afterInit inner) := by
  cases passed with
  | plain own => exact Iff.rfl
  | below bound =>
    cases afterInit with
    | false => exact recovered.labeled
    | true => exact recovered.labeled

theorem Recovered.copied (recovered : Recovered inside holds) (afterInit : Bool)
    (free : current.containsLabels = false) (here : holds current) :
    holds (unrunOf afterInit current) := by
  cases afterInit with
  | false => exact here
  | true => exact recovered.withoutInit free here

theorem Recovered.flatBranch (recovered : Recovered inside holds) {test : Expr}
    {thenFlat elseFlat : List Stmt} {elseBody : Option (List Stmt)} {label : String}
    (all : ∀ statement ∈ flatBranch test thenFlat (elseBody.map fun _ => elseFlat) label,
      holds statement) :
    (∀ statement ∈ thenFlat, holds statement) ∧
      (elseBody.isSome → ∀ statement ∈ elseFlat, holds statement) := by
  cases elseBody with
  | none => exact ⟨(recovered.branch.1 (all _ (List.mem_cons_self ..))).1, nofun⟩
  | some body =>
    obtain ⟨inThen, inElse⟩ := recovered.branch.1 (all _ (List.mem_cons_self ..))
    exact ⟨inThen, fun _ => inElse⟩

/-- The code behind a loop is left to one of the promised blocks. -/
theorem layout_defers {named between : Ledger} {following : Continuation Stmt} {head : LoopHead}
    {body : List Stmt} {loopName : String} {plan : LoopPlan}
    (planned : layout stem head body loopName following fallThrough ledger = (plan, named))
    (kept : between.sendAll? (plan.promises.map Promise.block) = some later) :
    Defers Continuation.unrun holds following.unrun between later := by
  rcases layout_resumes planned with nothing | ⟨promise, member, resumes⟩
  · rw [unrun_eq_nil nothing]
    exact ⟨_, by rw [Ledger.sendAll_inv kept], nofun⟩
  · have deferred : Defers Continuation.unrun holds promise.block.continuation.unrun
        between later := .ofSendAll kept (List.mem_map.2 ⟨promise, member, rfl⟩)
    rcases resumes with same | ⟨condition, same⟩
    · rwa [same] at deferred
    · rw [same, unrun_push] at deferred
      exact deferred.imp fun all => (List.forall_mem_append.1 all).2

/-- When what is placed has the property, what is left to the blocks is the rest. -/
theorem Placed.recovers (recovered : Recovered inside holds)
    (placed : Placed stem ledger code fallThrough spot out later)
    (all : ∀ statement ∈ out, holds statement) :
    Defers Continuation.unrun holds code.unrun ledger later := by
  induction placed with
  | @ends _ code _ _ nothing =>
    obtain ⟨_ | ⟨frame, frames⟩⟩ := code
    · exact .none
    · cases nothing
  | opens met owned arrival sent => exact .ofSend sent
  | unwraps met owned arrival placed ih =>
    apply (ih all).imp
    rw [unrun_of_at met, unrun_push, List.forall_mem_append, List.forall_mem_cons,
      recovered.passed (passed_of_unwraps arrival)]
    exact And.imp_left fun here => List.forall_mem_singleton.1 here
  | copies met owned arrival free plain placed ih =>
    rw [List.forall_mem_cons] at all
    apply (ih all.2).imp
    rw [unrun_of_at met, List.forall_mem_cons, recovered.passed (runs_inv arrival).2]
    exact fun others => ⟨recovered.copied _ free all.1, others⟩
  | splices met owned arrival labeled placed ih =>
    apply (ih all).imp
    rw [unrun_of_at met, unrun_push, List.forall_mem_append, List.forall_mem_cons,
      recovered.passed (runs_inv arrival).2, unrun_plain, unrunOf_block]
    exact And.imp_left fun inBody => recovered.block inBody
  | @branches ledger named between settled further later code rest frame current test thenBody
      elseBody fallThrough spot after _ _ _ met owned arrival labeled chosen thenPlaced elsePlaced settles
      placed ihThen ihElse ih =>
    rw [List.forall_mem_append] at all
    obtain ⟨thenHolds, elseHolds⟩ := recovered.flatBranch all.1
    have inElse : Defers Continuation.unrun holds (elseBody.getD []) between further := by
      cases elseBody with
      | none =>
        obtain ⟨more, sent⟩ := elsePlaced.grows.sent
        exact ⟨more, sent, nofun⟩
      | some elseBody => simpa using ihElse (elseHolds rfl)
    have whole := (ihThen thenHolds).trans (inElse.trans (Defers.settle settles (ih all.2)))
    apply (whole.minted (chosen_of_successor chosen).sent).imp
    rw [unrun_of_at met, List.forall_mem_cons, recovered.passed (runs_inv arrival).2,
      unrunOf_branch, recovered.branch]
    simp only [unrun_ofBlock, List.forall_mem_append]
    exact fun ⟨inThen, inElse, others⟩ => ⟨⟨inThen, inElse⟩, others⟩
  | @inlines ledger named between later code rest frame current loop head body inner flat loopName
      fallThrough spot plan met owned arrival labeled isLoop plainInit start ready planned redirects
      placed kept ih =>
    rw [List.forall_mem_append] at all
    apply (((ih all.2).trans (layout_defers planned kept)).minted (layout_promising planned).sent).imp
    rw [unrun_of_at met, List.forall_mem_cons, recovered.passed (runs_inv arrival).2,
      recovered.loop labeled isLoop plainInit, ready]
    simp only [unrun_ofBlock, List.forall_mem_append]
    refine And.imp_left fun innerHolds => ⟨nofun, ?_⟩
    exact recovered.redirect redirects (layout_breakTo planned) innerHolds
  | @splits ledger later code rest frame current loop head body fallThrough spot met owned arrival
      labeled isLoop plainInit unready sent =>
    rw [List.forall_mem_append] at all
    have deferred : Defers Continuation.unrun holds _ _ _ := .ofSend sent
    apply (deferred.minted rfl).imp
    rw [unrun_of_at met, unrun_of_at (At.resumption met head), List.forall_mem_cons,
      List.forall_mem_cons, recovered.passed (runs_inv arrival).2,
      recovered.passed (runs_inv arrival).2, recovered.loop labeled isLoop plainInit,
      recovered.loop labeled isLoop plainInit]
    rintro ⟨⟨_, inBody⟩, others⟩
    rw [pushFollowing_resumption] at others
    exact ⟨⟨all.1, inBody⟩, others⟩

/-- What the blocks of a body all have, the body has. -/
theorem Flattened.recovers {options : Options} {body : List Stmt} {blocks : List LabeledBlock}
    (flattened : Flattened options body blocks) (recovered : Recovered inside holds)
    (all : ∀ block ∈ blocks, ∀ statement ∈ block.statements, holds statement) :
    ∀ statement ∈ body, holds statement := by
  cases flattened with
  | nothing accepted => nofun
  | something accepted made =>
    have whole := made.defers Continuation.unrun holds
      (fun placed member => placed.recovers recovered (all _ member)) rfl
    simpa [entryLedger] using whole

end Recovered

end Unnest.Flatten
