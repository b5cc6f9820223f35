import Unnest.Script.Basic

/-! Read-only queries over statement trees: declared labels, named jumps and goto
targets. Each is a walk of its own with its own early exit, and all of them stop at
functions, which have no children. -/

namespace Unnest.Script

namespace Stmt

/-- The label that the statement itself declares. -/
def ownLabel : Stmt → Option String
  | .labeled label _ => some label
  | _ => none

/-- The target of a statement that is a goto. -/
def ownTarget : Stmt → Option String
  | .goto target => some target
  | _ => none

/-- Kind and label of a statement that is a break or continue with a label. -/
def ownNamedJump : Stmt → Option (Kind × String)
  | .breakJump (some label) => some (.breakJump, label)
  | .continueJump (some label) => some (.continueJump, label)
  | _ => none

/-- The statement is, or contains, a labeled statement. -/
def containsLabels (statement : Stmt) : Bool :=
  statement.ownLabel.isSome ||
    statement.children.attach.any fun ⟨child, _⟩ => child.containsLabels
termination_by sizeOf statement
decreasing_by exact sizeOf_lt_of_mem_children ‹_›

/-- The label declared first in source order. -/
def firstLabel (statement : Stmt) : Option String :=
  match statement.ownLabel with
  | some label => some label
  | none => statement.children.attach.findSome? fun ⟨child, _⟩ => child.firstLabel
termination_by sizeOf statement
decreasing_by exact sizeOf_lt_of_mem_children ‹_›

/-- Every declared label in source order. -/
def labels (statement : Stmt) : List String :=
  statement.ownLabel.toList ++
    statement.children.attach.flatMap fun ⟨child, _⟩ => child.labels
termination_by sizeOf statement
decreasing_by exact sizeOf_lt_of_mem_children ‹_›

/-- The first break or continue that names a label. -/
def namedJump (statement : Stmt) : Option (Kind × String) :=
  match statement.ownNamedJump with
  | some jump => some jump
  | none => statement.children.attach.findSome? fun ⟨child, _⟩ => child.namedJump
termination_by sizeOf statement
decreasing_by exact sizeOf_lt_of_mem_children ‹_›

/-- The targets of all gotos in source order. -/
def gotoTargets (statement : Stmt) : List String :=
  statement.ownTarget.toList ++
    statement.children.attach.flatMap fun ⟨child, _⟩ => child.gotoTargets
termination_by sizeOf statement
decreasing_by exact sizeOf_lt_of_mem_children ‹_›

theorem containsLabels_eq (statement : Stmt) : statement.containsLabels =
    (statement.ownLabel.isSome || statement.children.any containsLabels) := by
  rw [containsLabels]
  simp

theorem firstLabel_eq (statement : Stmt) : statement.firstLabel =
    match statement.ownLabel with
    | some label => some label
    | none => statement.children.findSome? firstLabel := by
  rw [firstLabel]
  cases statement.ownLabel <;> simp

theorem labels_eq (statement : Stmt) : statement.labels =
    statement.ownLabel.toList ++ statement.children.flatMap labels := by
  rw [labels]
  simp

theorem namedJump_eq (statement : Stmt) : statement.namedJump =
    match statement.ownNamedJump with
    | some jump => some jump
    | none => statement.children.findSome? namedJump := by
  rw [namedJump]
  cases statement.ownNamedJump <;> simp

theorem gotoTargets_eq (statement : Stmt) : statement.gotoTargets =
    statement.ownTarget.toList ++ statement.children.flatMap gotoTargets := by
  rw [gotoTargets]
  simp

end Stmt

/-- Every label declared in a body, in source order. -/
def labels (body : List Stmt) : List String := body.flatMap Stmt.labels

/-- The targets of all gotos of a body, in source order. -/
def gotoTargets (body : List Stmt) : List String := body.flatMap Stmt.gotoTargets

end Unnest.Script
