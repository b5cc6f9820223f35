import Unnest.Proofs.Flatten.Flattened

/-! Blocks hold no labels: every label has become the name of a block. -/

namespace Unnest.Flatten
open Script

section Free

variable {stem : String} {ledger later : Ledger} {blocks : List LabeledBlock}

theorem Spot.labels_jump (spot : Spot) (label : String) : labels (spot.jump label) = [] := by
  unfold Spot.jump
  split <;> simp

theorem labels_exitGuard (label : String) (condition : Expr) :
    (exitGuard label condition).labels = [] := by
  simp [exitGuard, Stmt.ifThen]

theorem LoopHead.labels_pendingInit {head : LoopHead} (afterInit : Bool)
    (plainInit : head.labeledInit = none) : labels (head.pendingInit afterInit) = [] := by
  cases head with
  | whileHead | doHead => rfl
  | forHead init condition iterator =>
    have free : init.labels = [] := by
      rw [Stmt.labels_eq_nil_iff]
      simpa [LoopHead.labeledInit] using plainInit
    unfold pendingInit
    split <;> simp_all
    split <;> simp_all

theorem Placed.free {code : Continuation Stmt} {fallThrough : String} {spot : Spot}
    {out : List Stmt} (placed : Placed stem ledger code fallThrough spot out later) :
    labels out = [] := by
  induction placed with
  | ends nothing => exact Spot.labels_jump _ _
  | opens met owned arrival sent => exact Spot.labels_jump _ _
  | unwraps met owned arrival placed ih => exact ih
  | splices met owned arrival labeled placed ih => exact ih
  | copies met owned arrival free plain placed ih =>
    rw [labels_cons, Stmt.labels_eq_nil_iff.2 free, ih, List.nil_append]
  | @branches _ _ _ _ _ _ _ _ _ _ _ _ elseBody _ _ _ _ _ _ met owned arrival labeled chosen thenPlaced
      elsePlaced settles placed inThen inElse ih =>
    rw [labels_append, ih]
    cases elseBody <;> simp [flatBranch, inThen, inElse]
  | inlines met owned arrival labeled isLoop plainInit start ready planned redirects placed kept ih =>
    rw [labels_append, ih, List.append_nil, labels_eq_nil_iff_forall]
    intro statement member
    obtain ⟨label, condition, rfl⟩ := layout_guard planned statement member
    exact Stmt.labels_eq_nil_iff.1 (labels_exitGuard label condition)
  | splits met owned arrival labeled isLoop plainInit unready sent =>
    rw [labels_append, LoopHead.labels_pendingInit _ plainInit]
    simp

theorem Made.free {done last : Nat} (made : Made stem done ledger blocks last later) :
    ∀ block ∈ blocks, Script.labels block.statements = [] := by
  induction made with
  | stops => nofun
  | makes waits placed made ih => exact List.forall_mem_cons.2 ⟨placed.free, ih⟩

theorem Flattened.free {options : Options} {body : List Stmt}
    (flattened : Flattened options body blocks) :
    ∀ block ∈ blocks, labels block.statements = [] := by
  cases flattened with
  | nothing accepted => exact List.forall_mem_singleton.2 (by simp)
  | something accepted made => exact made.free

end Free

end Unnest.Flatten
