import Unnest.Flatten.Placement
import Unnest.Proofs.Flatten.Layout
import Unnest.Proofs.Flatten.Redirected

/-! What putting code into a block does, as a relation between the ledger before, the code,
the statements that come out and the ledger after. There is one rule for each thing the
engine can meet, guards included, so that every property of the engine is an induction
over the rules and nothing else looks into the engine. -/

namespace Unnest.Flatten
open Script

/-- What the engine finds behind a label that is bound already. -/
inductive Passed (isBound : String → Bool) : Stmt → Stmt → Prop where
  | plain {statement : Stmt} (own : statement.ownLabel = none) :
      Passed isBound statement statement
  | below {label : String} {inner : Stmt} (bound : isBound label = true) :
      Passed isBound (.labeled label inner) inner

/-- How the engine comes to a statement. A label that is bound is the name of the block in the
making, and only a loop at the start of its block is resumed behind its initializer. -/
structure Owned (ledger : Ledger) (spot : Spot) (frame : Frame Stmt) (rest : Continuation Stmt)
    (current : Stmt) : Prop where
  behind : rest.Whole
  start : frame.afterInit = false → ∀ label, current.ownLabel = some label →
    ledger.isBound label = true → spot.reentry = some label
  resumed : frame.afterInit = true → ∃ loop, Passed ledger.isBound current loop ∧
    loop.ownLabel = none ∧ loop.containsLabels = true

/-- Placing the code gives the statements and turns the first ledger into the last. -/
inductive Placed (stem : String) :
    Ledger → Continuation Stmt → String → Spot → List Stmt → Ledger → Prop where
  /-- Nothing is left, and control goes where the code falls through to. -/
  | ends {ledger : Ledger} {code : Continuation Stmt} {fallThrough : String} {spot : Spot}
      (nothing : code.pop = none) :
      Placed stem ledger code fallThrough spot (spot.jump fallThrough) ledger
  /-- A label that is not bound starts a block with all that is left. -/
  | opens {ledger later : Ledger} {code rest : Continuation Stmt} {frame : Frame Stmt}
      {current : Stmt} {fallThrough label : String} {spot : Spot}
      (met : code.At frame rest current) (owned : Owned ledger spot frame rest current)
      (arrival : arrive ledger.isBound current = .opens label)
      (sent : ledger.send? ⟨code, label, fallThrough⟩ = some later) :
      Placed stem ledger code fallThrough spot (spot.jump label) later
  /-- Below a bound label stands another label. -/
  | unwraps {ledger later : Ledger} {code rest : Continuation Stmt} {frame : Frame Stmt}
      {current inner : Stmt} {fallThrough : String} {spot : Spot} {out : List Stmt}
      (met : code.At frame rest current) (owned : Owned ledger spot frame rest current)
      (arrival : arrive ledger.isBound current = .unwraps inner)
      (placed : Placed stem ledger ((rest.pushFollowing frame).push ⟨[inner], 0, frame.afterInit⟩)
        fallThrough spot out later) :
      Placed stem ledger code fallThrough spot out later
  /-- A statement without labels is copied. -/
  | copies {ledger later : Ledger} {code rest : Continuation Stmt} {frame : Frame Stmt}
      {current statement : Stmt} {fallThrough : String} {spot : Spot} {out : List Stmt}
      (met : code.At frame rest current) (owned : Owned ledger spot frame rest current)
      (arrival : arrive ledger.isBound current = .runs statement)
      (free : statement.containsLabels = false) (plain : statement.namedJump = none)
      (placed : Placed stem ledger (rest.pushFollowing frame) fallThrough (.after [statement])
        out later) :
      Placed stem ledger code fallThrough spot (statement :: out) later
  /-- The statements of a block take its place. -/
  | splices {ledger later : Ledger} {code rest : Continuation Stmt} {frame : Frame Stmt}
      {current : Stmt} {body : List Stmt} {fallThrough : String} {spot : Spot} {out : List Stmt}
      (met : code.At frame rest current) (owned : Owned ledger spot frame rest current)
      (arrival : arrive ledger.isBound current = .runs (.block body))
      (labeled : (Stmt.block body).containsLabels = true)
      (placed : Placed stem ledger ((rest.pushFollowing frame).push ⟨body, 0, false⟩)
        fallThrough spot out later) :
      Placed stem ledger code fallThrough spot out later
  /-- Both bodies of a branch fall through to the code that follows it. -/
  | branches {ledger named between settled further later : Ledger} {code rest : Continuation Stmt}
      {frame : Frame Stmt} {current : Stmt} {test : Expr} {thenBody : List Stmt}
      {elseBody : Option (List Stmt)} {fallThrough : String} {spot : Spot} {after : Successor}
      {thenFlat elseFlat out : List Stmt}
      (met : code.At frame rest current) (owned : Owned ledger spot frame rest current)
      (arrival : arrive ledger.isBound current = .runs (.branch test thenBody elseBody))
      (labeled : (Stmt.branch test thenBody elseBody).containsLabels = true)
      (chosen : ledger.successor stem (rest.pushFollowing frame).remaining fallThrough =
        (after, named))
      (thenPlaced : Placed stem named (.ofBlock thenBody) after.name .inside thenFlat between)
      (elsePlaced : Placed stem between (.ofBlock (elseBody.getD [])) after.name .inside elseFlat
        further)
      (settles : further.settle? after (rest.pushFollowing frame) fallThrough = some settled)
      (placed : Placed stem settled (after.leftover (rest.pushFollowing frame)) fallThrough
        (.after (flatBranch test thenFlat (elseBody.map fun _ => elseFlat) after.name)) out later) :
      Placed stem ledger code fallThrough spot
        (flatBranch test thenFlat (elseBody.map fun _ => elseFlat) after.name ++ out) later
  /-- A loop at the start of its block is taken apart. -/
  | inlines {ledger named between later : Ledger} {code rest : Continuation Stmt}
      {frame : Frame Stmt} {current loop : Stmt} {head : LoopHead} {body inner flat : List Stmt}
      {loopName fallThrough : String} {spot : Spot} {plan : LoopPlan}
      (met : code.At frame rest current) (owned : Owned ledger spot frame rest current)
      (arrival : arrive ledger.isBound current = .runs loop)
      (labeled : loop.containsLabels = true) (isLoop : loopOf loop = some (head, body))
      (plainInit : head.labeledInit = none) (start : spot.reentry = some loopName)
      (ready : head.pendingInit frame.afterInit = [])
      (planned : layout stem head body loopName (rest.pushFollowing frame) fallThrough ledger =
        (plan, named))
      (redirects : redirect plan.targets body = .ok inner)
      (placed : Placed stem (named.inline loopName) (.ofBlock inner) plan.targets.continueTo .inside
        flat between)
      (kept : between.sendAll? (plan.promises.map Promise.block) = some later) :
      Placed stem ledger code fallThrough spot (plan.guard ++ flat) later
  /-- A loop elsewhere, or with an initializer to run first, is moved to a block of its own. -/
  | splits {ledger later : Ledger} {code rest : Continuation Stmt} {frame : Frame Stmt}
      {current loop : Stmt} {head : LoopHead} {body : List Stmt} {fallThrough : String}
      {spot : Spot}
      (met : code.At frame rest current) (owned : Owned ledger spot frame rest current)
      (arrival : arrive ledger.isBound current = .runs loop)
      (labeled : loop.containsLabels = true) (isLoop : loopOf loop = some (head, body))
      (plainInit : head.labeledInit = none)
      (unready : spot.reentry = none ∨ head.pendingInit frame.afterInit ≠ [])
      (sent : (ledger.mint.move (ledger.upcoming stem)).send?
        ⟨rest.push (head.resumption frame), ledger.upcoming stem, fallThrough⟩ = some later) :
      Placed stem ledger code fallThrough spot
        (head.pendingInit frame.afterInit ++ [.goto (ledger.upcoming stem)]) later

theorem fallsThrough_append {front back : List Stmt} (more : back ≠ []) :
    fallsThrough (front ++ back) = fallsThrough back := by
  rw [← List.dropLast_concat_getLast more, ← List.append_assoc, fallsThrough_append_singleton,
    fallsThrough_append_singleton]

theorem ne_nil_of_closed {statements : List Stmt} (closed : fallsThrough statements = false) :
    statements ≠ [] := by
  rintro rfl
  simp [fallsThrough] at closed

theorem closed_append {front back : List Stmt} (closed : fallsThrough back = false) :
    fallsThrough (front ++ back) = false := by
  rw [fallsThrough_append (ne_nil_of_closed closed), closed]

theorem Spot.jump_closes (spot : Spot) (label : String) {front : List Stmt}
    (same : spot.reached = fallsThrough front) : fallsThrough (front ++ spot.jump label) = false := by
  unfold jump
  by_cases reached : spot.reached = true
  · rw [if_pos reached, fallsThrough_append_singleton]
    rfl
  · rw [if_neg reached, List.append_nil, ← same, Bool.eq_false_iff.2 reached]

theorem flatBranch_closed (test : Expr) {thenFlat elseFlat : List Stmt}
    (elseBody : Option (List Stmt)) (label : String) (thenClosed : fallsThrough thenFlat = false)
    (elseClosed : fallsThrough elseFlat = false) :
    fallsThrough (flatBranch test thenFlat (elseBody.map fun _ => elseFlat) label) = false := by
  cases elseBody with
  | none => rfl
  | some body => simp [flatBranch, fallsThrough, Stmt.fallsThrough, thenClosed, elseClosed]

/-- Control never runs off the end of what is placed. -/
theorem Placed.closes {stem fallThrough : String} {ledger later : Ledger}
    {code : Continuation Stmt} {spot : Spot} {out : List Stmt}
    (placed : Placed stem ledger code fallThrough spot out later) :
    ∀ front, spot.reached = fallsThrough front → fallsThrough (front ++ out) = false := by
  induction placed with
  | ends nothing => exact fun front same => Spot.jump_closes _ _ same
  | opens met owned arrival sent => exact fun front same => Spot.jump_closes _ _ same
  | unwraps met owned arrival placed ih => exact ih
  | splices met owned arrival labeled placed ih => exact ih
  | @copies _ _ _ _ _ _ statement _ _ _ met owned arrival free plain placed ih =>
    intro front _
    rw [List.append_cons]
    apply ih
    rw [fallsThrough_append_singleton]
    rfl
  | branches met owned arrival labeled chosen thenPlaced elsePlaced settles placed
      thenClosed elseClosed ih =>
    intro front _
    rw [← List.append_assoc]
    apply ih
    exact (fallsThrough_append
      (ne_nil_of_closed (flatBranch_closed _ _ _ (thenClosed [] rfl) (elseClosed [] rfl)))).symm
  | inlines met owned arrival labeled isLoop plainInit start ready planned redirects placed kept ih =>
    intro front _
    exact closed_append (closed_append (ih [] rfl))
  | splits met owned arrival labeled isLoop plainInit unready sent =>
    intro front _
    rw [← List.append_assoc, fallsThrough_append_singleton]
    rfl

end Unnest.Flatten
