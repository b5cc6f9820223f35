import Unnest.Flatten.Placement
import Unnest.Proofs.Flatten.Remaining

/-! The engine in stages: what it does with a branch, with a loop at the start of its block, with
a statement that contains labels and with any statement, each as a definition of its own. What is
done with the code of the calls that a stage makes is a parameter, which for the engine is the
engine itself. -/

namespace Unnest.Flatten
open Script

/-- What is done with code that is put into a block. -/
abbrev Placer := Continuation Stmt → String → Spot → RunM (List Stmt)

section Stage

variable (recur : Placer)

/-- Put the alternative of a branch into the block, if there is one. -/
def placeElse (elseBody : Option (List Stmt)) (label : String) : RunM (Option (List Stmt)) :=
  match elseBody with
  | none => pure none
  | some elseBody => some <$> recur (.ofBlock elseBody) label .inside

/-- Put what follows a branch behind it, or leave that to a block of its own. -/
def placeBehind (after : Successor) (placed : List Stmt) (following : Continuation Stmt)
    (fallThrough : String) : RunM (List Stmt) :=
  match after with
  | .fresh name => do
    enqueue ⟨following, name, fallThrough⟩
    return placed
  | _ => do return placed ++ (← recur following fallThrough (.after placed))

/-- Both bodies of a branch are put into the block, and then what follows, unless that is left to
a block of its own. -/
def placeBranch (test : Expr) (thenBody : List Stmt) (elseBody : Option (List Stmt))
    (following : Continuation Stmt) (fallThrough : String) : RunM (List Stmt) := do
  let after ← labelAfter following fallThrough
  reportEvent (.flatteningBranch after)
  let thenFlat ← recur (.ofBlock thenBody) after.name .inside
  let elseFlat ← placeElse recur elseBody after.name
  placeBehind recur after (flatBranch test thenFlat elseFlat after.name) following fallThrough

/-- Take a loop apart in the block with the given name. -/
def inlineLoop (head : LoopHead) (body : List Stmt) (loopName : String)
    (following : Continuation Stmt) (fallThrough : String) : RunM (List Stmt) := do
  let plan ← planLoop head body loopName following fallThrough
  match redirect plan.targets body with
  | .error fault => throw fault
  | .ok inner =>
    let flat ← recur (.ofBlock inner) plan.targets.continueTo .inside
    plan.promises.forM keep
    return plan.guard ++ flat

/-- A loop is taken apart where it can be jumped back to, and moved to such a place otherwise. -/
def placeLoop (head : LoopHead) (body : List Stmt) (frame : Frame Stmt) (rest : Continuation Stmt)
    (fallThrough : String) (spot : Spot) : RunM (List Stmt) :=
  match head.labeledInit with
  | some kind => throw (.unhandledLabels kind)
  | none =>
    match spot.reentry, head.pendingInit frame.afterInit with
    | some loopName, [] =>
      inlineLoop recur head body loopName (rest.pushFollowing frame) fallThrough
    | _, init => do
      let jump ← splitBeforeLoop (head.resumption frame) rest fallThrough
      return init ++ jump

/-- What becomes of a statement that contains labels. -/
def placeLabeled (statement : Stmt) (frame : Frame Stmt) (rest : Continuation Stmt)
    (fallThrough : String) (spot : Spot) : RunM (List Stmt) :=
  match statement with
  | .block body => recur ((rest.pushFollowing frame).push ⟨body, 0, false⟩) fallThrough spot
  | .branch test thenBody elseBody =>
    placeBranch recur test thenBody elseBody (rest.pushFollowing frame) fallThrough
  | .switch .. => throw (.labelInSwitch (statement.firstLabel.getD ""))
  | _ =>
    match loopOf statement with
    | none => throw (.unhandledLabels statement.kind)
    | some (head, body) => placeLoop recur head body frame rest fallThrough spot

/-- What becomes of a statement that is run, and of the code behind it. -/
def placeStatement (statement : Stmt) (frame : Frame Stmt) (rest : Continuation Stmt)
    (fallThrough : String) (spot : Spot) : RunM (List Stmt) :=
  if statement.containsLabels then placeLabeled recur statement frame rest fallThrough spot
  else
    match statement.namedJump with
    | some (keyword, label) => throw (.namedJump keyword label)
    | none => do
      let others ← recur (rest.pushFollowing frame) fallThrough (.after [statement])
      return statement :: others

/-- What becomes of code, up to the calls that it takes. -/
def placeStep : Placer := fun code fallThrough spot =>
  match code.pop with
  | none => return spot.jump fallThrough
  | some (frame, rest) =>
    match frame.current with
    | none => recur rest fallThrough spot
    | some current => do
      let run ← get
      match arrive run.isBound current with
      | .opens label =>
        reportEvent (.labelStartsBlock label)
        enqueue ⟨rest.push frame, label, fallThrough⟩
        return spot.jump label
      | .unwraps inner =>
        recur ((rest.pushFollowing frame).push ⟨[inner], 0, frame.afterInit⟩) fallThrough spot
      | .runs statement => placeStatement recur statement frame rest fallThrough spot

end Stage

/-- The engine is made of its stages. -/
theorem place_eq_placeStep (code : Continuation Stmt) (fallThrough : String) (spot : Spot) :
    place code fallThrough spot = placeStep place code fallThrough spot := by
  rw [place, placeStep]
  generalize code.pop = taken
  cases taken with
  | none => rfl
  | some met =>
    obtain ⟨frame, rest⟩ := met
    dsimp only
    generalize frame.current = reached
    cases reached with
    | none => rfl
    | some current =>
      refine congrArg (get >>= ·) (funext fun run => ?_)
      generalize arrive run.isBound current = arrival
      cases arrival with
      | opens label => rfl
      | unwraps inner => rfl
      | runs statement =>
        dsimp only
        rw [placeStatement]
        split
        · cases statement with
          | branch test thenBody elseBody => cases elseBody <;> rfl
          | whileLoop | doLoop | forLoop =>
            simp only [placeLabeled, loopOf, placeLoop, inlineLoop]
            generalize LoopHead.labeledInit _ = kind
            generalize spot.reentry = reentry
            generalize LoopHead.pendingInit _ _ = init
            cases kind with
            | some kind => rfl
            | none =>
              cases reentry with
              | none => rfl
              | some loopName =>
                cases init with
                | cons first others => rfl
                | nil =>
                  refine congrArg (planLoop _ _ _ _ _ >>= ·) (funext fun plan => ?_)
                  generalize redirect plan.targets _ = redirected
                  cases redirected <;> rfl
          | _ => rfl
        · rfl

theorem placeLabeled_of_loopOf {recur : Placer} {loop : Stmt} {head : LoopHead} {body : List Stmt}
    (isLoop : loopOf loop = some (head, body)) (frame : Frame Stmt) (rest : Continuation Stmt)
    (fallThrough : String) (spot : Spot) :
    placeLabeled recur loop frame rest fallThrough spot =
      placeLoop recur head body frame rest fallThrough spot := by
  cases loop with
  | whileLoop | doLoop | forLoop =>
    cases isLoop
    rfl
  | _ => cases isLoop

section Loop

variable {recur : Placer} {head : LoopHead} {frame : Frame Stmt} {spot : Spot}

/-- Either a loop can be taken apart where it stands, or it has to be moved. -/
theorem ready_or_unready (head : LoopHead) (frame : Frame Stmt) (spot : Spot) :
    (∃ loopName, spot.reentry = some loopName ∧ head.pendingInit frame.afterInit = []) ∨
      (spot.reentry = none ∨ head.pendingInit frame.afterInit ≠ []) := by
  cases spot.reentry with
  | none => exact .inr (.inl rfl)
  | some loopName =>
    by_cases ready : head.pendingInit frame.afterInit = []
    · exact .inl ⟨loopName, rfl, ready⟩
    · exact .inr (.inr ready)

theorem placeLoop_of_labeledInit {kind : Kind} (labeledInit : head.labeledInit = some kind)
    (body : List Stmt) (rest : Continuation Stmt) (fallThrough : String) :
    placeLoop recur head body frame rest fallThrough spot = throw (.unhandledLabels kind) := by
  rw [placeLoop, labeledInit]

theorem placeLoop_of_ready {loopName : String} (plainInit : head.labeledInit = none)
    (start : spot.reentry = some loopName) (ready : head.pendingInit frame.afterInit = [])
    (body : List Stmt) (rest : Continuation Stmt) (fallThrough : String) :
    placeLoop recur head body frame rest fallThrough spot =
      inlineLoop recur head body loopName (rest.pushFollowing frame) fallThrough := by
  rw [placeLoop, plainInit, start, ready]

theorem placeLoop_of_unready (plainInit : head.labeledInit = none)
    (unready : spot.reentry = none ∨ head.pendingInit frame.afterInit ≠ [])
    (body : List Stmt) (rest : Continuation Stmt) (fallThrough : String) :
    placeLoop recur head body frame rest fallThrough spot = (do
      let jump ← splitBeforeLoop (head.resumption frame) rest fallThrough
      return head.pendingInit frame.afterInit ++ jump) := by
  rw [placeLoop, plainInit]
  cases start : spot.reentry with
  | none => rfl
  | some loopName =>
    obtain ⟨first, others, pending⟩ :=
      List.exists_cons_of_ne_nil (unready.resolve_left (by simp [start]))
    rw [pending]

end Loop

section Stages

variable {code rest : Continuation Stmt} {frame : Frame Stmt} {current : Stmt}

theorem place_of_pop_none (nothing : code.pop = none) (fallThrough : String) (spot : Spot) :
    place code fallThrough spot = return spot.jump fallThrough := by
  simp only [place_eq_placeStep code, placeStep, nothing]

/-- A position behind the end of its block is passed over. -/
theorem place_of_current_none (popped : code.pop = some (frame, rest))
    (nothing : frame.current = none) (fallThrough : String) (spot : Spot) :
    place code fallThrough spot = place rest fallThrough spot := by
  simp only [place_eq_placeStep code, placeStep, popped, nothing]

theorem place_of_at (met : code.At frame rest current) (fallThrough : String) (spot : Spot) :
    place code fallThrough spot = (do
      let run ← get
      match arrive run.isBound current with
      | .opens label =>
        reportEvent (.labelStartsBlock label)
        enqueue ⟨rest.push frame, label, fallThrough⟩
        return spot.jump label
      | .unwraps inner =>
        place ((rest.pushFollowing frame).push ⟨[inner], 0, frame.afterInit⟩) fallThrough spot
      | .runs statement => placeStatement place statement frame rest fallThrough spot) := by
  simp only [place_eq_placeStep code, placeStep, met.popped, met.here]

end Stages

end Unnest.Flatten
