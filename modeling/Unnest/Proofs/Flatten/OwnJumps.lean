import Unnest.Proofs.Flatten.Redirected

/-! Which loop or switch an unlabeled jump belongs to. A continue belongs to the nearest loop
whose body it is in, a break to the nearest loop or switch. Redirecting the jumps of a loop
enters no switch and no other loop, so it misses a continue in a switch and a jump in the
initializer of an inner `for` loop. -/

namespace Unnest.Flatten
open Script

/-- The kind of an unlabeled jump. -/
def ownJump : Stmt → Option Kind
  | .breakJump none => some .breakJump
  | .continueJump none => some .continueJump
  | _ => none

/-- The children whose jumps of the kind do not belong to the statement itself. -/
def passing (jump : Kind) : Stmt → List Stmt
  | .whileLoop .. => []
  | .doLoop .. => []
  | .forLoop init _ _ _ => [init]
  | .switch discriminant cases =>
    if jump = .continueJump then (Stmt.switch discriminant cases).children else []
  | statement => statement.children

theorem passing_subset (jump : Kind) (statement : Stmt) :
    passing jump statement ⊆ statement.children := by
  cases statement with
  | whileLoop | doLoop => exact List.nil_subset _
  | forLoop => exact List.cons_subset.2 ⟨List.mem_cons_self .., List.nil_subset _⟩
  | switch =>
    rw [passing]
    split
    · exact List.Subset.refl _
    · exact List.nil_subset _
  | _ => exact List.Subset.refl _

/-- The statement has an unlabeled jump of the kind that belongs to something around it. -/
def escapes (jump : Kind) (statement : Stmt) : Bool :=
  ownJump statement == some jump ||
    (passing jump statement).attach.any fun ⟨child, _⟩ => escapes jump child
termination_by sizeOf statement
decreasing_by exact Stmt.sizeOf_lt_of_mem_children (passing_subset jump statement ‹_›)

/-- Such a jump is out of reach when the jumps of a loop around the statement are redirected. -/
def hidden (jump : Kind) (statement : Stmt) : Bool :=
  if bindsJumps statement.kind then escapes jump statement
  else statement.children.attach.any fun ⟨child, _⟩ => hidden jump child
termination_by sizeOf statement
decreasing_by exact Stmt.sizeOf_lt_of_mem_children ‹_›

theorem escapes_eq (jump : Kind) (statement : Stmt) : escapes jump statement =
    (ownJump statement == some jump || (passing jump statement).any (escapes jump)) := by
  rw [escapes]
  simp

theorem hidden_eq (jump : Kind) (statement : Stmt) : hidden jump statement =
    if bindsJumps statement.kind then escapes jump statement
    else statement.children.any (hidden jump) := by
  rw [hidden]
  simp

theorem breaksOut_eq (statement : Stmt) : breaksOut statement =
    if bindsJumps statement.kind then false
    else statement.kind == .breakJump || statement.children.any breaksOut := by
  rw [breaksOut]
  simp

theorem RedirectedAll.any_eq {targets : LoopTargets} {before after : List Stmt}
    {first second : Stmt → Bool} (all : RedirectedAll targets before after)
    (each : ∀ statement ∈ before, ∀ result, redirectStmt targets statement = .ok result →
      second result = first statement) : after.any second = before.any first := by
  induction all with
  | nil => rfl
  | @cons statement result rest rest' here _ ih =>
    rw [List.any_cons, List.any_cons, each statement (List.mem_cons_self ..) result here,
      ih fun other member => each other (List.mem_cons_of_mem _ member)]

/-- After redirecting, the jumps that were out of reach are the only ones left. -/
theorem escapes_of_redirectStmt {targets : LoopTargets} {before after : Stmt} (jump : Kind)
    (success : redirectStmt targets before = .ok after)
    (reached : targets.breakTo = none → breaksOut before = false) :
    escapes jump after = hidden jump before := by
  induction before using Stmt.childInduction generalizing after with
  | step parent ih =>
    have below : bindsJumps parent.kind = false → ∀ child ∈ parent.children,
        targets.breakTo = none → breaksOut child = false := by
      intro open_ child member nowhere
      have whole := reached nowhere
      rw [breaksOut_eq, open_, if_neg Bool.false_ne_true, Bool.or_eq_false_iff,
        List.any_eq_false] at whole
      exact Bool.eq_false_iff.2 (whole.2 child member)
    rw [escapes_eq, hidden_eq]
    cases redirected_of_redirectStmt success with
    | kept plain own stays goes =>
      cases binds : bindsJumps parent.kind with
      | true => rw [if_pos rfl, ← escapes_eq]
      | false =>
        have leaf : parent.children = [] := own.resolve_left (by simp [binds])
        have none : passing jump parent = [] :=
          List.subset_nil.1 (leaf ▸ passing_subset jump parent)
        rw [if_neg Bool.false_ne_true, none, leaf, List.any_nil, List.any_nil, Bool.or_false]
        -- a jump that stays as it is would be a break that nothing reaches
        cases parent with
        | breakJump label =>
          cases label with
          | some label => rfl
          | none =>
            have unreached := reached (stays rfl)
            rw [breaksOut_eq] at unreached
            cases unreached
        | continueJump label =>
          cases label with
          | some label => rfl
          | none => exact absurd rfl goes
        | _ => rfl
    | breaks | continues => rfl
    | block all =>
      exact (Bool.false_or _).trans
        (all.any_eq fun child member result success => ih child member success (below rfl child member))
    | branch thenAll elseAll =>
      refine (Bool.false_or _).trans ?_
      simp only [passing, Stmt.children, List.any_append]
      congr 1
      · exact thenAll.any_eq fun child member result success =>
          ih child (List.mem_append_left _ member) success
            (below rfl child (List.mem_append_left _ member))
      · cases elseAll with
        | none => rfl
        | some all =>
          exact all.any_eq fun child member result success =>
            ih child (List.mem_append_right _ member) success
              (below rfl child (List.mem_append_right _ member))
    | labeled inner =>
      refine (Bool.false_or _).trans ?_
      simp only [passing, Stmt.children, List.any_cons, List.any_nil, Bool.or_false]
      exact ih _ (List.mem_singleton_self _) inner (below rfl _ (List.mem_singleton_self _))

end Unnest.Flatten
