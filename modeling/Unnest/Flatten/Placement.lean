import Unnest.Flatten.Loop
import Unnest.Script.FallThrough

/-! Flattening: a structured body that contains labels becomes a list of blocks, each of
which ends in a jump, a return or a throw. A queue holds the blocks still to be made, each
a name and the code that remains from there. Statements without labels are copied; a
labeled statement, or a loop that is not the first thing in its block, ends the block and
is scheduled as a new one. -/

namespace Unnest.Flatten

open Script

/-- A place in the block being made. -/
structure Spot where
  /-- The block's name, as long as nothing has been put into it: jumping there comes here. -/
  reentry : Option String
  /-- Control can reach the place. -/
  reached : Bool

namespace Spot

/-- The beginning of a block. -/
def blockStart (name : String) : Spot := ⟨some name, true⟩

/-- The beginning of a list inside a block. -/
def inside : Spot := ⟨none, true⟩

/-- The place after some statements. -/
def after (statements : List Stmt) : Spot := ⟨none, fallsThrough statements⟩

/-- A jump from here, or nothing if control does not come here. -/
def jump (spot : Spot) (label : String) : List Stmt :=
  if spot.reached then [.goto label] else []

end Spot

/-- What a statement asks for when the engine comes to it. -/
inductive Arrival where
  /-- The label is new: a block starts here. -/
  | opens (label : String)
  /-- The label is bound, and another label stands right below it. -/
  | unwraps (inner : Stmt)
  /-- The statement runs here. -/
  | runs (statement : Stmt)

def arrive (isBound : String → Bool) : Stmt → Arrival
  | .labeled label (.labeled inner body) =>
    if isBound label then .unwraps (.labeled inner body) else .opens label
  | .labeled label body => if isBound label then .runs body else .opens label
  | statement => .runs statement

section Measure

def Frame.weight (frame : Frame Stmt) : Nat := 1 + Script.weight frame.remaining

/-- The weight of everything that remains. It falls with every step of the engine. -/
def Continuation.weight (continuation : Continuation Stmt) : Nat :=
  continuation.frames.foldr (fun frame total => frame.weight + total) 0

theorem weight_of_pop {continuation rest : Continuation Stmt} {frame : Frame Stmt}
    (popped : continuation.pop = some (frame, rest)) :
    continuation.weight = frame.weight + rest.weight := by
  obtain ⟨_ | ⟨first, frames⟩⟩ := continuation
  · cases popped
  · cases popped
    rfl

theorem weight_push_le (continuation : Continuation Stmt) (frame : Frame Stmt) :
    (continuation.push frame).weight ≤ continuation.weight + frame.weight := by
  unfold Continuation.push
  split
  · exact Nat.le_of_eq (Nat.add_comm ..)
  · exact Nat.le_add_right _ _

theorem weight_ofBlock_le (body : List Stmt) :
    (Continuation.ofBlock body).weight ≤ 1 + weight body :=
  Nat.le_trans (weight_push_le _ _) (by simp [Continuation.empty, Continuation.weight,
    Frame.weight, Frame.remaining])

theorem weight_of_current {frame : Frame Stmt} {statement : Stmt}
    (here : frame.current = some statement) :
    frame.weight = 1 + statement.weight + weight (frame.block.drop (frame.index + 1)) := by
  obtain ⟨bound, value⟩ := List.getElem?_eq_some_iff.1 here
  rw [Frame.weight, Frame.remaining, List.drop_eq_getElem_cons bound, value, weight_cons]
  omega

/-- Going on to the next position gives up the weight of the statement. -/
theorem weight_pushFollowing_le (rest : Continuation Stmt) {frame : Frame Stmt}
    {statement : Stmt} (here : frame.current = some statement) :
    (rest.pushFollowing frame).weight + statement.weight ≤ frame.weight + rest.weight := by
  have whole := weight_of_current here
  unfold Continuation.pushFollowing Frame.following
  split
  · rename_i next found
    split at found
    · cases found
      have := weight_push_le rest ⟨frame.block, frame.index + 1, false⟩
      simp only [Frame.weight, Frame.remaining] at this whole ⊢
      omega
    · cases found
  · omega

theorem two_le_weight (statement : Stmt) : 2 ≤ statement.weight := by
  rw [Stmt.weight_children]
  omega

theorem weight_of_unwraps {isBound : String → Bool} {statement inner : Stmt}
    (arrival : arrive isBound statement = .unwraps inner) :
    statement.weight = 2 + inner.weight := by
  unfold arrive at arrival
  split at arrival
  · split at arrival <;> simp at arrival
    subst arrival
    simp [Stmt.weight_children (.labeled _ _), Stmt.children]
  · split at arrival <;> simp at arrival
  · simp at arrival

theorem weight_of_runs {isBound : String → Bool} {statement inner : Stmt}
    (arrival : arrive isBound statement = .runs inner) : inner.weight ≤ statement.weight := by
  unfold arrive at arrival
  split at arrival
  · split at arrival <;> simp at arrival
  · split at arrival <;> simp at arrival
    subst arrival
    simp [Stmt.weight_children (.labeled _ _), Stmt.children]
  · simp at arrival
    subst arrival
    exact Nat.le_refl _

end Measure

/-- A flattened branch. Without an alternative, control goes on with a jump. -/
def flatBranch (test : Expr) (thenFlat : List Stmt) (elseFlat : Option (List Stmt))
    (label : String) : List Stmt :=
  match elseFlat with
  | some elseFlat => [.branch test thenFlat (some elseFlat)]
  | none => [.branch test thenFlat none, .goto label]

set_option linter.unusedVariables false in
/-- Put what remains into a block, from the given spot on. What the block cannot hold is
scheduled, and control goes to the fall-through label when nothing remains. -/
def place (continuation : Continuation Stmt) (fallThrough : String) (spot : Spot) :
    RunM (List Stmt) := do
  match popped : continuation.pop with
  | none => return spot.jump fallThrough
  | some (frame, rest) =>
    match here : frame.current with
    | none => place rest fallThrough spot
    | some current =>
      let following := rest.pushFollowing frame
      let run ← get
      match arrival : arrive run.isBound current with
      | .opens label =>
        reportEvent (.labelStartsBlock label)
        enqueue ⟨rest.push frame, label, fallThrough⟩
        return spot.jump label
      | .unwraps inner =>
        place (following.push ⟨[inner], 0, frame.afterInit⟩) fallThrough spot
      | .runs statement =>
        if statement.containsLabels then
          match shape : statement with
          | .block body => place (following.push ⟨body, 0, false⟩) fallThrough spot
          | .branch test thenBody elseBody =>
            let after ← labelAfter following fallThrough
            reportEvent (.flatteningBranch after)
            let thenFlat ← place (.ofBlock thenBody) after.name .inside
            let elseFlat ← (match otherwise : elseBody with
              | none => pure none
              | some elseBody => some <$> place (.ofBlock elseBody) after.name .inside)
            let placed := flatBranch test thenFlat elseFlat after.name
            match after with
            | .fresh name =>
              enqueue ⟨following, name, fallThrough⟩
              return placed
            | _ => return placed ++ (← place following fallThrough (.after placed))
          | .switch .. => throw (.labelInSwitch (statement.firstLabel.getD ""))
          | _ =>
            match loop : loopOf statement with
            | none => throw (.unhandledLabels statement.kind)
            | some (head, body) =>
              match head.labeledInit with
              | some kind => throw (.unhandledLabels kind)
              | none =>
                match spot.reentry, head.pendingInit frame.afterInit with
                | some loopName, [] =>
                  let plan ← planLoop head body loopName following fallThrough
                  match redirects : redirect plan.targets body with
                  | .error fault => throw fault
                  | .ok inner =>
                    let flat ← place (.ofBlock inner) plan.targets.continueTo .inside
                    plan.promises.forM keep
                    return plan.guard ++ flat
                | _, init =>
                  let jump ← splitBeforeLoop (head.resumption frame) rest fallThrough
                  return init ++ jump
        else
          match statement.namedJump with
          | some (keyword, label) => throw (.namedJump keyword label)
          | none =>
            let others ← place following fallThrough (.after [statement])
            return statement :: others
termination_by continuation.weight
decreasing_by
  all_goals
    have popWeight := weight_of_pop popped
  · unfold Frame.weight at popWeight
    omega
  all_goals
    have followingWeight := weight_pushFollowing_le rest here
    have positive := two_le_weight current
  · have pushWeight := weight_push_le (rest.pushFollowing frame) ⟨[inner], 0, frame.afterInit⟩
    have innerWeight := weight_of_unwraps arrival
    simp only [Frame.weight, Frame.remaining, List.drop_zero, weight_cons, weight_nil] at *
    omega
  all_goals
    have lighter := weight_of_runs arrival
    have whole := weight_of_current here
  · have pushWeight := weight_push_le (rest.pushFollowing frame) ⟨body, 0, false⟩
    subst shape
    simp only [Stmt.weight_children, Stmt.children, Frame.weight, Frame.remaining,
      List.drop_zero] at *
    omega
  · have bodyWeight := weight_ofBlock_le thenBody
    subst shape
    simp only [Stmt.weight_children (.branch _ _ _), Stmt.children, weight_append] at lighter
    omega
  · have bodyWeight := weight_ofBlock_le elseBody
    subst shape otherwise
    simp only [Stmt.weight_children (.branch _ _ _), Stmt.children, weight_append,
      Option.getD_some] at lighter
    omega
  · omega
  · have bodyWeight := weight_ofBlock_le inner
    have loopWeight := weight_of_loopOf loop
    rw [redirect_weight plan.targets body inner redirects] at bodyWeight
    omega
  · omega

end Unnest.Flatten
