import Unnest.Proofs.Flatten.Covers

/-! Where the gotos of the blocks lead: to a block, to the exit, or where a goto of the body
leads. -/

namespace Unnest.Flatten
open Script

/-- The statement leads to known names only, by gotos and by its own labels. -/
structure Leads (known : String → Prop) (statement : Stmt) : Prop where
  labels : ∀ label ∈ statement.labels, known label
  targets : ∀ target ∈ statement.gotoTargets, known target

section Leads

variable {known : String → Prop}

theorem leads_of_children {statement : Stmt} (own : statement.ownLabel = none)
    (target : statement.ownTarget = none) :
    Leads known statement ↔ ∀ child ∈ statement.children, Leads known child := by
  constructor
  · rintro ⟨labels, targets⟩ child below
    constructor
    · intro label member
      apply labels label
      rw [Stmt.labels_children]
      exact List.mem_append_right _ (mem_labels.2 ⟨child, below, member⟩)
    · intro target member
      apply targets target
      rw [Stmt.gotoTargets_children]
      exact List.mem_append_right _ (mem_gotoTargets.2 ⟨child, below, member⟩)
  · intro all
    constructor
    · rw [Stmt.labels_children, own]
      intro label member
      obtain ⟨child, below, inside⟩ := mem_labels.1 member
      exact (all child below).labels label inside
    · rw [Stmt.gotoTargets_children, target]
      intro target member
      obtain ⟨child, below, inside⟩ := mem_gotoTargets.1 member
      exact (all child below).targets target inside

theorem Leads.body {loop : Stmt} {head : LoopHead} {body : List Stmt} (leads : Leads known loop)
    (isLoop : loopOf loop = some (head, body)) : ∀ statement ∈ body, Leads known statement := by
  cases loop <;> simp only [loopOf, reduceCtorEq, Option.some.injEq, Prod.mk.injEq] at isLoop <;>
    obtain ⟨rfl, rfl⟩ := isLoop
  · exact (leads_of_children rfl rfl).1 leads
  · exact (leads_of_children rfl rfl).1 leads
  · exact (List.forall_mem_cons.1 ((leads_of_children rfl rfl).1 leads)).2

/-- Redirected jumps lead where the loop says. -/
theorem leads_redirected {targets : LoopTargets} {body inner : List Stmt}
    (leads : ∀ statement ∈ body, Leads known statement)
    (redirects : redirect targets body = .ok inner)
    (breaks : ∀ target, targets.breakTo = some target → known target)
    (continues : known targets.continueTo) : ∀ statement ∈ inner, Leads known statement := by
  intro statement member
  constructor
  · intro label declared
    have inBody : label ∈ labels body := by
      rw [← redirect_labels redirects]
      exact mem_labels.2 ⟨statement, member, declared⟩
    obtain ⟨source, inSource, declared⟩ := mem_labels.1 inBody
    exact (leads source inSource).labels label declared
  · intro target goes
    have inInner : target ∈ gotoTargets inner := mem_gotoTargets.2 ⟨statement, member, goes⟩
    rcases redirect_gotoTargets redirects inInner with before | broken | rfl
    · obtain ⟨source, inSource, goes⟩ := mem_gotoTargets.1 before
      exact (leads source inSource).targets target goes
    · exact breaks target broken
    · exact continues

theorem carried_leads : Carried known (Leads known) where
  block leads := (leads_of_children rfl rfl).1 leads
  branch {test thenBody elseBody} := by
    rw [leads_of_children rfl rfl, Stmt.children, List.forall_mem_append]
  labeled leads := by
    obtain ⟨labels, targets⟩ := leads
    rw [Stmt.labels_labeled, List.forall_mem_cons] at labels
    exact ⟨labels.1, labels.2, by simpa using targets⟩
  goto goal := ⟨by simp, by simpa using goal⟩
  expression := ⟨by simp, by simp⟩
  init leads := (leads_of_children rfl rfl).1 leads _ (List.mem_cons_self ..)
  loop leads _ isLoop redirects _ breaks continues :=
    leads_redirected (leads.body isLoop) redirects breaks continues

end Leads

end Unnest.Flatten
