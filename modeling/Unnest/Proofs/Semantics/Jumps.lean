import Unnest.Proofs.Flatten.OwnJumps

/-! The jumps by which control leaves a statement, and how they are found in its parts. -/

namespace Unnest.Script
open Flatten

/-- The jumps that leave the statement may be taken, and so may its gotos. -/
structure Stmt.Jumps (breaks continues : Prop) (goto : String → Prop) (statement : Stmt) :
    Prop where
  breaks : escapes .breakJump statement = true → breaks
  continues : escapes .continueJump statement = true → continues
  goto : ∀ target ∈ statement.gotoTargets, goto target

variable {child parent : Stmt} {breaks continues : Prop} {goto : String → Prop}

theorem escapes_of_passing {jump : Kind} (passes : child ∈ passing jump parent)
    (escaping : escapes jump child = true) : escapes jump parent = true := by
  rw [escapes_eq, Bool.or_eq_true, List.any_eq_true]
  exact .inr ⟨child, passes, escaping⟩

theorem gotoTargets_subset (member : child ∈ parent.children) :
    child.gotoTargets ⊆ parent.gotoTargets := by
  intro target inside
  rw [Stmt.gotoTargets_children]
  exact List.mem_append_right _ (mem_gotoTargets.2 ⟨child, member, inside⟩)

namespace Stmt.Jumps

theorem part (jumps : parent.Jumps breaks continues goto) (member : child ∈ parent.children)
    (passes : ∀ jump, child ∈ passing jump parent) : child.Jumps breaks continues goto where
  breaks escaping := jumps.breaks (escapes_of_passing (passes _) escaping)
  continues escaping := jumps.continues (escapes_of_passing (passes _) escaping)
  goto target inside := jumps.goto target (gotoTargets_subset member inside)

/-- The jumps of the body of a loop lead to the loop and to what is behind it. -/
theorem within (jumps : parent.Jumps breaks continues goto) (member : child ∈ parent.children)
    {after again : Prop} (falls : after) (rounds : again) : child.Jumps after again goto where
  breaks _ := falls
  continues _ := rounds
  goto target inside := jumps.goto target (gotoTargets_subset member inside)

/-- The breaks of a switch lead to what is behind it. -/
theorem clause {discriminant : Expr} {cases : List Case}
    (jumps : (Stmt.switch discriminant cases).Jumps breaks continues goto)
    (member : child ∈ (Stmt.switch discriminant cases).children) {after : Prop} (falls : after) :
    child.Jumps after continues goto where
  breaks _ := falls
  continues escaping := jumps.continues (escapes_of_passing (by rwa [passing, if_pos rfl]) escaping)
  goto target inside := jumps.goto target (gotoTargets_subset member inside)

/-- A loop that goes on behind its first round, or behind its initializer, has no jumps that
the loop itself does not have. -/
theorem turned {loop : Stmt} (jumps : parent.Jumps breaks continues goto)
    (own : ∀ jump, escapes jump loop = false) (inside : loop.gotoTargets ⊆ parent.gotoTargets) :
    loop.Jumps breaks continues goto where
  breaks escaping := by simp [own] at escaping
  continues escaping := by simp [own] at escaping
  goto target member := jumps.goto target (inside member)

end Stmt.Jumps

theorem escapes_whileLoop (jump : Kind) (condition : Expr) (body : List Stmt) :
    escapes jump (.whileLoop condition body) = false := by
  rw [escapes_eq]
  rfl

theorem escapes_forLoop_empty (jump : Kind) (condition iterator : Option Expr) (body : List Stmt) :
    escapes jump (.forLoop .empty condition iterator body) = false := by
  rw [escapes_eq, passing, List.any_cons, escapes_eq]
  rfl

theorem Stmt.Jumps.doLoop {condition : Expr} {body : List Stmt}
    (jumps : (Stmt.doLoop body condition).Jumps breaks continues goto) :
    (Stmt.whileLoop condition body).Jumps breaks continues goto :=
  jumps.turned (fun jump => escapes_whileLoop jump condition body) fun target member => by
    rwa [gotoTargets_children] at member ⊢

theorem Stmt.Jumps.forLoop {init : Stmt} {condition iterator : Option Expr} {body : List Stmt}
    (jumps : (Stmt.forLoop init condition iterator body).Jumps breaks continues goto) :
    (Stmt.forLoop .empty condition iterator body).Jumps breaks continues goto :=
  jumps.turned (fun jump => escapes_forLoop_empty jump condition iterator body)
    fun target member => by
      rw [gotoTargets_children] at member ⊢
      have behind : target ∈ Script.gotoTargets body := by
        simpa [children, ownTarget, gotoTargets_children .empty] using member
      exact List.mem_append_right _ (List.mem_append_right _ behind)

end Unnest.Script
