import Unnest.Proofs.Flatten.Unrun

/-! Properties that only jumps decide: any other statement has them exactly when its children
do. Taking a loop apart loses nothing of such a property. -/

namespace Unnest.Flatten
open Script

/-- A statement that is no jump has the property exactly when its children have it. -/
def Throughout (holds : Stmt → Prop) : Prop :=
  ∀ statement, statement.ownNamedJump = none → statement.ownTarget = none →
    (holds statement ↔ ∀ child ∈ statement.children, holds child)

section Throughout

variable {holds : Stmt → Prop}

theorem Throughout.withoutInit (through : Throughout holds) {statement : Stmt}
    (here : holds statement) : holds (withoutInit statement) := by
  induction statement using Stmt.childInduction with
  | step parent ih =>
    cases parent with
    | labeled label body =>
      have below := (through _ rfl rfl).1 here body (List.mem_singleton_self _)
      exact (through _ rfl rfl).2
        (List.forall_mem_singleton.2 (ih body (List.mem_singleton_self _) below))
    | forLoop init condition iterator body =>
      have below := List.forall_mem_cons.1 ((through _ rfl rfl).1 here)
      exact (through _ rfl rfl).2
        (List.forall_mem_cons.2 ⟨(through _ rfl rfl).2 nofun, below.2⟩)
    | _ => exact here

/-- A loop has the property if its body and its initializer, as long as it has not run, do. -/
theorem Throughout.loop (through : Throughout holds) {loop : Stmt} {head : LoopHead}
    {body : List Stmt} {afterInit : Bool} (isLoop : loopOf loop = some (head, body)) :
    holds (unrunOf afterInit loop) ↔
      (∀ statement ∈ head.pendingInit afterInit, holds statement) ∧
        ∀ statement ∈ body, holds statement := by
  cases loop <;> simp only [loopOf, reduceCtorEq, Option.some.injEq, Prod.mk.injEq] at isLoop <;>
    obtain ⟨rfl, rfl⟩ := isLoop
  · next condition body =>
    have same : unrunOf afterInit (.whileLoop condition body) = .whileLoop condition body := by
      cases afterInit <;> rfl
    rw [same, through _ rfl rfl]
    simp [Stmt.children, LoopHead.pendingInit]
  · next body condition =>
    have same : unrunOf afterInit (.doLoop body condition) = .doLoop body condition := by
      cases afterInit <;> rfl
    rw [same, through _ rfl rfl]
    simp [Stmt.children, LoopHead.pendingInit]
  · next init condition iterator body =>
    have nothing : holds .empty := (through _ rfl rfl).2 (List.forall_mem_nil _)
    cases afterInit with
    | true =>
      have none : (LoopHead.forHead init condition iterator).pendingInit true = [] := by
        cases init <;> rfl
      rw [none, unrunOf, if_pos rfl, Flatten.withoutInit, through _ rfl rfl, Stmt.children,
        List.forall_mem_cons]
      exact and_congr_left' (iff_of_true nothing (List.forall_mem_nil _))
    | false =>
      have whole : (∀ statement ∈ (LoopHead.forHead init condition iterator).pendingInit false,
          holds statement) ↔ holds init := by
        cases init with
        | empty => exact iff_of_true (List.forall_mem_nil _) nothing
        | _ => exact List.forall_mem_singleton
      rw [whole, unrunOf, if_neg Bool.false_ne_true, through _ rfl rfl, Stmt.children,
        List.forall_mem_cons]

/-- If redirecting jumps does not hide the lack of the property, no step of flattening does. -/
theorem Throughout.recovered (through : Throughout holds)
    (redirect : ∀ {targets : LoopTargets} {body inner : List Stmt},
      Flatten.redirect targets body = .ok inner → (∀ statement ∈ inner, holds statement) →
        ∀ statement ∈ body, holds statement) :
    Recovered (fun body => ∀ statement ∈ body, holds statement) holds where
  block inside := (through _ rfl rfl).2 inside
  branch {test thenBody elseBody} := by
    rw [through _ rfl rfl, Stmt.children, List.forall_mem_append]
  labeled := (through _ rfl rfl).trans List.forall_mem_singleton
  withoutInit _ here := through.withoutInit here
  loop _ isLoop _ := through.loop isLoop
  redirect redirects _ inside := redirect redirects inside

end Throughout

end Unnest.Flatten
