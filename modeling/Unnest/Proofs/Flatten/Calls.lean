import Unnest.Proofs.Flatten.RefusedOfRun

/-! The calls of the engine. Putting code into a block makes further calls, for the code that
follows, for the bodies of a branch and for the body of a loop. Each is made in the state that the
steps before it leave behind, so also a run that fails makes calls until it does. No other call is
made: what becomes of a call is decided by the calls listed for it, and these have less code. -/

namespace Unnest.Flatten
open Script

/-- A call of the engine, with the state in which it is made. -/
structure Call where
  code : Continuation Stmt
  fallThrough : String
  spot : Spot
  run : Run

namespace Call

/-- The call comes to a statement that runs here, itself or below its label. -/
def Runs (call : Call) (frame : Frame Stmt) (rest : Continuation Stmt) (statement : Stmt) : Prop :=
  ∃ current, call.code.At frame rest current ∧
    arrive call.run.isBound current = .runs statement

/-- The call comes to a branch that contains labels, and finds the label after it. -/
structure Branches (call : Call) (frame : Frame Stmt) (rest : Continuation Stmt) (test : Expr)
    (thenBody : List Stmt) (elseBody : Option (List Stmt)) (after : Successor) (entered : Run) :
    Prop where
  runs : call.Runs frame rest (.branch test thenBody elseBody)
  labeled : (Stmt.branch test thenBody elseBody).containsLabels = true
  enters : (do
    let after ← labelAfter (rest.pushFollowing frame) call.fallThrough
    reportEvent (.flatteningBranch after)
    return after : RunM Successor) call.run = .ok after entered

/-- The call has put both bodies of a branch into the block. -/
inductive Settles (call : Call) (frame : Frame Stmt) (rest : Continuation Stmt)
    (after : Successor) : List Stmt → Run → Prop where
  | both {test : Expr} {thenBody thenFlat : List Stmt} {elseBody elseFlat : Option (List Stmt)}
      {entered between now : Run}
      (branches : call.Branches frame rest test thenBody elseBody after entered)
      (thenPlaced : place (.ofBlock thenBody) after.name .inside entered = .ok thenFlat between)
      (elsePlaced : placeElse place elseBody after.name between = .ok elseFlat now) :
      Settles call frame rest after (flatBranch test thenFlat elseFlat after.name) now

/-- The call lays out a loop at the start of its block. -/
inductive Inlines (call : Call) (frame : Frame Stmt) (rest : Continuation Stmt) (plan : LoopPlan)
    (inner : List Stmt) (entered : Run) : Prop where
  | here {loop : Stmt} {head : LoopHead} {body : List Stmt} {loopName : String}
      (runs : call.Runs frame rest loop)
      (labeled : loop.containsLabels = true) (isLoop : loopOf loop = some (head, body))
      (plainInit : head.labeledInit = none) (start : call.spot.reentry = some loopName)
      (ready : head.pendingInit frame.afterInit = [])
      (planned : planLoop head body loopName (rest.pushFollowing frame) call.fallThrough call.run =
        .ok plan entered)
      (redirects : redirect plan.targets body = .ok inner)

/-- The call comes to a promise of a loop, in the state that the promises before it leave. -/
inductive Keeps (call : Call) : Promise → Run → Prop where
  | next {frame : Frame Stmt} {rest : Continuation Stmt} {plan : LoopPlan}
      {inner flat : List Stmt} {promise : Promise} {front back : List Promise}
      {entered placed now : Run} (inlines : call.Inlines frame rest plan inner entered)
      (bodyPlaced : place (.ofBlock inner) plan.targets.continueTo .inside entered = .ok flat placed)
      (split : plan.promises = front ++ promise :: back)
      (kept : front.forM keep placed = .ok () now) : Keeps call promise now

/-- The calls that a call makes. -/
inductive Makes (call : Call) : Call → Prop where
  /-- Nothing is left of the innermost block. -/
  | skips {frame : Frame Stmt} {rest : Continuation Stmt}
      (popped : call.code.pop = some (frame, rest)) (nothing : frame.current = none) :
      Makes call { call with code := rest }
  /-- Below a bound label stands another label. -/
  | unwraps {frame : Frame Stmt} {rest : Continuation Stmt} {current inner : Stmt}
      (met : call.code.At frame rest current)
      (arrival : arrive call.run.isBound current = .unwraps inner) :
      Makes call
        { call with code := (rest.pushFollowing frame).push ⟨[inner], 0, frame.afterInit⟩ }
  /-- The code behind a statement that is copied. -/
  | copies {frame : Frame Stmt} {rest : Continuation Stmt} {statement : Stmt}
      (runs : call.Runs frame rest statement) (free : statement.containsLabels = false)
      (plain : statement.namedJump = none) :
      Makes call { call with code := rest.pushFollowing frame, spot := .after [statement] }
  /-- The statements of a block that contains labels. -/
  | splices {frame : Frame Stmt} {rest : Continuation Stmt} {body : List Stmt}
      (runs : call.Runs frame rest (.block body))
      (labeled : (Stmt.block body).containsLabels = true) :
      Makes call { call with code := (rest.pushFollowing frame).push ⟨body, 0, false⟩ }
  | inThen {frame : Frame Stmt} {rest : Continuation Stmt} {test : Expr} {thenBody : List Stmt}
      {elseBody : Option (List Stmt)} {after : Successor} {entered : Run}
      (branches : call.Branches frame rest test thenBody elseBody after entered) :
      Makes call ⟨.ofBlock thenBody, after.name, .inside, entered⟩
  | inElse {frame : Frame Stmt} {rest : Continuation Stmt} {test : Expr}
      {thenBody elseBody thenFlat : List Stmt} {after : Successor} {entered between : Run}
      (branches : call.Branches frame rest test thenBody (some elseBody) after entered)
      (thenPlaced : place (.ofBlock thenBody) after.name .inside entered = .ok thenFlat between) :
      Makes call ⟨.ofBlock elseBody, after.name, .inside, between⟩
  /-- The code behind a branch, unless it is left to a block of its own. -/
  | behind {frame : Frame Stmt} {rest : Continuation Stmt} {after : Successor}
      {placed : List Stmt} {now : Run} (settles : call.Settles frame rest after placed now)
      (named : ∀ name, after ≠ .fresh name) :
      Makes call ⟨rest.pushFollowing frame, call.fallThrough, .after placed, now⟩
  | inBody {frame : Frame Stmt} {rest : Continuation Stmt} {plan : LoopPlan} {inner : List Stmt}
      {entered : Run} (inlines : call.Inlines frame rest plan inner entered) :
      Makes call ⟨.ofBlock inner, plan.targets.continueTo, .inside, entered⟩

/-- What the placer does with the call. -/
def answer (placer : Placer) (call : Call) : EStateM.Result FlattenError Run (List Stmt) :=
  placer call.code call.fallThrough call.spot call.run

section Answer

variable {recur : Placer} {call : Call} {frame : Frame Stmt} {rest : Continuation Stmt}
  (same : ∀ next, call.Makes next → next.answer recur = next.answer place)
include same

theorem placeBranch_of_makes {test : Expr} {thenBody : List Stmt} {elseBody : Option (List Stmt)}
    (runs : call.Runs frame rest (.branch test thenBody elseBody))
    (labeled : (Stmt.branch test thenBody elseBody).containsLabels = true) :
    placeBranch recur test thenBody elseBody (rest.pushFollowing frame) call.fallThrough call.run =
      placeBranch place test thenBody elseBody (rest.pushFollowing frame) call.fallThrough
        call.run := by
  refine RunM.bind_congr rfl fun after middle chosen => ?_
  refine RunM.bind_congr rfl fun _ entered reported => ?_
  have branches : call.Branches frame rest test thenBody elseBody after entered :=
    ⟨runs, labeled, by rw [RunM.bind_of_ok chosen, RunM.bind_of_ok reported]; rfl⟩
  refine RunM.bind_congr (same _ (.inThen branches)) fun thenFlat between thenPlaced => ?_
  refine RunM.bind_congr ?_ fun elseFlat now elsePlaced => ?_
  · cases elseBody with
    | none => rfl
    | some elseBody => exact RunM.bind_congr (same _ (.inElse branches thenPlaced)) fun _ _ _ => rfl
  · have settles : call.Settles frame rest after _ now := .both branches thenPlaced elsePlaced
    cases after with
    | fresh name => rfl
    | next | fallThrough =>
      exact RunM.bind_congr (same _ (.behind settles nofun)) fun _ _ _ => rfl

theorem placeLoop_of_makes {loop : Stmt} {head : LoopHead} {body : List Stmt}
    (runs : call.Runs frame rest loop) (labeled : loop.containsLabels = true)
    (isLoop : loopOf loop = some (head, body)) :
    placeLoop recur head body frame rest call.fallThrough call.spot call.run =
      placeLoop place head body frame rest call.fallThrough call.spot call.run := by
  cases plainInit : head.labeledInit with
  | some kind => rw [placeLoop_of_labeledInit plainInit, placeLoop_of_labeledInit plainInit]
  | none =>
    rcases ready_or_unready head frame call.spot with ⟨loopName, start, ready⟩ | unready
    · rw [placeLoop_of_ready plainInit start ready, placeLoop_of_ready plainInit start ready]
      refine RunM.bind_congr rfl fun plan entered planned => ?_
      cases redirects : redirect plan.targets body with
      | error fault => rfl
      | ok inner =>
        have inlines : call.Inlines frame rest plan inner entered :=
          .here runs labeled isLoop plainInit start ready planned redirects
        exact RunM.bind_congr (same _ (.inBody inlines)) fun _ _ _ => rfl
    · rw [placeLoop_of_unready plainInit unready, placeLoop_of_unready plainInit unready]

theorem placeStatement_of_makes {statement : Stmt} (runs : call.Runs frame rest statement) :
    placeStatement recur statement frame rest call.fallThrough call.spot call.run =
      placeStatement place statement frame rest call.fallThrough call.spot call.run := by
  unfold placeStatement
  split
  next labeled =>
    cases statement with
    | block body => exact same _ (.splices runs labeled)
    | branch test thenBody elseBody => exact placeBranch_of_makes same runs labeled
    | whileLoop | doLoop | forLoop => exact placeLoop_of_makes same runs labeled rfl
    | _ => rfl
  next free =>
    cases plain : statement.namedJump with
    | some jump => rfl
    | none =>
      have unlabeled : statement.containsLabels = false := Bool.not_eq_true _ ▸ free
      exact RunM.bind_congr (same _ (.copies runs unlabeled plain)) fun _ _ _ => rfl

/-- What becomes of a call is decided by the calls that it makes. -/
theorem answer_of_makes : call.answer (placeStep recur) = call.answer place := by
  unfold answer
  rw [place_eq_placeStep, placeStep, placeStep]
  cases popped : call.code.pop with
  | none => rfl
  | some met =>
    obtain ⟨frame, rest⟩ := met
    cases here : frame.current with
    | none =>
      simp only [here]
      exact same _ (.skips popped here)
    | some current =>
      have met : call.code.At frame rest current := ⟨popped, here⟩
      simp only [here, get_bind_apply]
      cases arrival : arrive call.run.isBound current with
      | opens label => rfl
      | unwraps inner => exact same _ (.unwraps met arrival)
      | runs statement => exact placeStatement_of_makes same ⟨current, met, arrival⟩

end Answer

/-- Every call that is made has less code. -/
theorem Makes.lighter {call next : Call} (makes : call.Makes next) :
    next.code.weight < call.code.weight := by
  cases makes with
  | @skips frame rest popped nothing =>
    have whole := weight_of_pop popped
    have positive : 1 ≤ frame.weight := Nat.le_add_right _ _
    change rest.weight < call.code.weight
    omega
  | unwraps met arrival => exact weight_push_unwraps_lt met arrival
  | copies runs free plain =>
    obtain ⟨current, met, arrival⟩ := runs
    exact weight_following_lt met
  | @splices frame rest body runs labeled =>
    obtain ⟨current, met, arrival⟩ := runs
    exact weight_push_runs_lt met arrival (Nat.le_of_eq (Stmt.weight_children (.block body)).symm)
  | inThen branches =>
    obtain ⟨current, met, arrival⟩ := branches.runs
    exact weight_ofBlock_lt met arrival weight_then_le
  | inElse branches thenPlaced =>
    obtain ⟨current, met, arrival⟩ := branches.runs
    exact weight_ofBlock_lt met arrival weight_else_le
  | behind settles named =>
    obtain ⟨branches, _, _⟩ := settles
    obtain ⟨current, met, arrival⟩ := branches.runs
    exact weight_following_lt met
  | inBody inlines =>
    obtain ⟨runs, labeled, isLoop, plainInit, start, ready, planned, redirects⟩ := inlines
    obtain ⟨current, met, arrival⟩ := runs
    exact weight_ofBlock_lt met arrival
      (redirect_weight _ _ _ redirects ▸ weight_of_loopOf isLoop)

/-- The engine is the only placer that does with every call what the stages do with it. -/
theorem answer_unique {recur : Placer}
    (solves : ∀ call : Call, call.answer recur = call.answer (placeStep recur)) (call : Call) :
    call.answer recur = call.answer place := by
  induction weighs : call.code.weight using Nat.strong_induction_on generalizing call with
  | _ bound ih =>
    rw [solves call]
    exact answer_of_makes fun next makes => ih next.code.weight (weighs ▸ makes.lighter) next rfl

/-- The calls that come of a call, the call itself among them. -/
def Reaches : Call → Call → Prop := Relation.ReflTransGen Makes

/-- The ledger tells the run, and the code can be put into the block. -/
structure Sound (stem : String) (done : Nat) (ledger : Ledger) (call : Call) : Prop where
  inside : call.code.Inside
  begun : Begun stem ledger call.spot call.code
  unmade : Unmade stem ledger
  tracks : Tracks stem done call.run ledger

/-- None of the labels that the call can come to has been bound. -/
structure Unmet (stem : String) (done : Nat) (ledger : Ledger) (call : Call) : Prop where
  inside : call.code.Inside
  whole : call.code.Whole
  unseen : Unseen stem ledger.names call.code.remaining
  unmade : Unmade stem ledger
  tracks : Tracks stem done call.run ledger

section Step

variable {stem : String} {done : Nat} {ledger : Ledger} {call next first : Call}
  {frame : Frame Stmt} {rest : Continuation Stmt} {test : Expr} {statement : Stmt}
  {thenBody : List Stmt} {elseBody : Option (List Stmt)} {after : Successor} {entered now : Run}

theorem Unmet.sound (unmet : call.Unmet stem done ledger) : call.Sound stem done ledger where
  inside := unmet.inside
  begun := unmet.unseen.begun unmet.whole
  unmade := unmet.unmade
  tracks := unmet.tracks

/-- The code behind a statement that is met can be put anywhere. -/
theorem Sound.following {current : Stmt} (sound : call.Sound stem done ledger)
    (met : call.code.At frame rest current) :
    (rest.pushFollowing frame).Inside ∧ (rest.pushFollowing frame).Whole :=
  ⟨met.inside_following sound.inside,
    Continuation.whole_pushFollowing (sound.begun.owned met).behind frame⟩

/-- The labels of a statement that runs, and those behind it, have not been bound. -/
theorem Sound.unseen (sound : call.Sound stem done ledger)
    (runs : call.Runs frame rest statement) :
    Unseen stem ledger.names (statement :: (rest.pushFollowing frame).remaining) := by
  obtain ⟨current, met, arrival⟩ := runs
  rw [funext sound.tracks.isBound] at arrival
  exact sound.begun.fresh.passed met (runs_inv arrival).2

theorem Sound.chosen (sound : call.Sound stem done ledger)
    (branches : call.Branches frame rest test thenBody elseBody after entered) :
    ∃ named, Chosen stem ledger call.fallThrough (rest.pushFollowing frame).remaining after named ∧
      Tracks stem done entered named := by
  obtain ⟨⟨current, met, _⟩, _, enters⟩ := branches
  obtain ⟨after, middle, chosen, enters⟩ := RunM.bind_ok enters
  obtain ⟨named, chosen, tracks⟩ := sound.tracks.labelAfter (sound.following met).1 chosen
  obtain ⟨_, reported, event, enters⟩ := RunM.bind_ok enters
  cases enters
  exact ⟨named, chosen_of_successor chosen, tracks.reportEvent event⟩

/-- What lies ahead when the first body of a branch has been placed. -/
theorem Sound.afterThen {thenFlat : List Stmt} {between : Run} (sound : call.Sound stem done ledger)
    (branches : call.Branches frame rest test thenBody elseBody after entered)
    (thenPlaced : place (.ofBlock thenBody) after.name .inside entered = .ok thenFlat between) :
    ∃ named later, Chosen stem ledger call.fallThrough (rest.pushFollowing frame).remaining after
        named ∧ Placed stem named (.ofBlock thenBody) after.name .inside thenFlat later ∧
      Tracks stem done between later := by
  obtain ⟨named, chosen, tracks⟩ := sound.chosen branches
  obtain ⟨later, placed, tracks⟩ := placeable _ (Continuation.inside_ofBlock _)
    ((sound.unseen branches.runs).begun_then chosen) tracks thenPlaced
  exact ⟨named, later, chosen, placed, tracks⟩

/-- When the bodies of a branch have been placed, they are closed, and nobody has claimed the label
of the code behind it. -/
theorem Sound.settled {placed : List Stmt} (sound : call.Sound stem done ledger)
    (settles : call.Settles frame rest after placed now) :
    ∃ named later, Chosen stem ledger call.fallThrough (rest.pushFollowing frame).remaining after
        named ∧ fallsThrough placed = false ∧
      Unseen stem later.names (rest.pushFollowing frame).remaining ∧ Unmade stem later ∧
      (∀ name, after = .fresh name → name ∉ later.names) ∧ Tracks stem done now later := by
  obtain @⟨test, _, _, elseBody, _, _, _, _, branches, thenPlaced, elsePlaced⟩ := settles
  obtain ⟨named, chosen, tracks⟩ := sound.chosen branches
  have unseen := sound.unseen branches.runs
  obtain ⟨between, elseFlat, later, rfl, thenPlaced, elsePlaced, behind, tracks⟩ :=
    unseen.placed_bodies chosen (placeable _) (fun _ _ => placeable _) tracks thenPlaced elsePlaced
  have closed := flatBranch_closed test elseBody after.name (thenPlaced.closed rfl)
    (elsePlaced.closed rfl)
  exact ⟨named, later, chosen, closed, behind,
    unseen.unmade_else chosen sound.unmade thenPlaced elsePlaced,
    unseen.free_behind chosen sound.unmade thenPlaced elsePlaced, tracks⟩

/-- The body of a loop and the code behind it can be placed once the loop has been laid out. -/
theorem Sound.inlined {plan : LoopPlan} {inner : List Stmt} (sound : call.Sound stem done ledger)
    (inlines : call.Inlines frame rest plan inner entered) :
    ∃ named loopName, Promising stem ledger named (rest.pushFollowing frame) plan.promises ∧
      Unseen stem (named.inline loopName).names inner ∧
      Unseen stem (named.inline loopName).names (rest.pushFollowing frame).remaining ∧
      (∀ label ∈ labels (rest.pushFollowing frame).remaining, label ∉ labels inner) ∧
      Tracks stem done entered (named.inline loopName) := by
  obtain ⟨runs, _, isLoop, _, _, _, planned, redirects⟩ := inlines
  have unseen := sound.unseen runs
  obtain ⟨current, met, _⟩ := runs
  obtain ⟨inside, _⟩ := sound.following met
  obtain ⟨named, planned, tracks⟩ := sound.tracks.planLoop inside planned
  have promising := layout_promising planned
  obtain ⟨body, behind, apart⟩ := unseen.inlined isLoop redirects promising
  exact ⟨named, _, promising, body, behind, apart, tracks⟩

/-- Nobody claims a name that a loop promises until the promise comes up. -/
theorem Sound.unclaimed {promise : Promise} (sound : call.Sound stem done ledger)
    (keeps : call.Keeps promise now) :
    now.isBound promise.block.name = false ∧ promise.block.Ready := by
  obtain @⟨frame, rest, plan, inner, _, _, front, back, _, _, _, inlines, bodyPlaced, split,
    kept⟩ := keeps
  obtain ⟨named, loopName, promising, body, behind, apart, tracks⟩ := sound.inlined inlines
  have inside : (rest.pushFollowing frame).Inside := by
    obtain ⟨⟨current, met, _⟩, _⟩ := inlines
    exact (sound.following met).1
  obtain ⟨between, placed, tracks⟩ := placeable _ (Continuation.inside_ofBlock _)
    ((body.sublist (by simp)).begun (Continuation.whole_ofBlock _)) tracks bodyPlaced
  have behind := behind.grown placed.grows (by simpa using apart)
  have starts : Grows stem (Continuation.ofBlock inner).remaining named (named.inline loopName) :=
    .ofMinted rfl (Nat.le_refl _)
  have free := promising.unclaimed (promising.free sound.unmade (starts.trans placed.grows)
    fun label member => body.named label (by simpa using member)) behind
  have different := promising.different behind.named
  have ready := promising.ready inside
  rw [split] at free different ready
  have here : promise ∈ front ++ promise :: back := List.mem_append_right _ (List.mem_cons_self ..)
  obtain ⟨later, kept, tracks⟩ := tracks.keepAll
    (fun other member => (ready other (List.mem_append_left _ member)).more) kept
  refine ⟨?_, ready promise here⟩
  rw [tracks.isBound, Ledger.isBound_eq_false_iff]
  intro bound
  rcases names_of_keepAll kept _ bound with before | ⟨other, inFront, same⟩
  · exact free promise here before
  · exact (List.pairwise_append.1 different).2.2 other inFront _ (List.mem_cons_self ..) same

/-- A call leads to calls whose labels have not been bound. -/
theorem Makes.unmet (makes : call.Makes next) (sound : call.Sound stem done ledger) :
    ∃ later, next.Unmet stem done later := by
  cases makes with
  | skips popped nothing =>
    rcases sound.inside.cases with ends | ⟨frame, rest, current, met⟩
    · cases ends.symm.trans popped
    · cases met.popped.symm.trans popped
      cases met.here.symm.trans nothing
  | unwraps met arrival =>
    rw [funext sound.tracks.isBound] at arrival
    obtain ⟨inside, whole⟩ := sound.following met
    have unseen := sound.begun.fresh.passed met (passed_of_unwraps arrival)
    have plain := (sound.begun.owned met).plain_of_unwraps arrival
    exact ⟨ledger, Continuation.inside_push inside _, Continuation.whole_push whole plain,
      unseen.single, sound.unmade, sound.tracks⟩
  | copies runs free plain =>
    have unseen := sound.unseen runs
    obtain ⟨current, met, _⟩ := runs
    obtain ⟨inside, whole⟩ := sound.following met
    exact ⟨ledger, inside, whole, unseen.sublist (List.sublist_append_right _ _), sound.unmade,
      sound.tracks⟩
  | splices runs labeled =>
    have unseen := sound.unseen runs
    obtain ⟨current, met, _⟩ := runs
    obtain ⟨inside, whole⟩ := sound.following met
    exact ⟨ledger, Continuation.inside_push inside _, Continuation.whole_push whole rfl,
      unseen.spliced, sound.unmade, sound.tracks⟩
  | inThen branches =>
    obtain ⟨named, chosen, tracks⟩ := sound.chosen branches
    have unseen := (sound.unseen branches.runs).in_then chosen
    exact ⟨named, Continuation.inside_ofBlock _, Continuation.whole_ofBlock _,
      unseen.sublist (by simp), sound.unmade.still (chosen.grows []), tracks⟩
  | inElse branches thenPlaced =>
    obtain ⟨named, later, chosen, thenPlaced, tracks⟩ := sound.afterThen branches thenPlaced
    have unseen := sound.unseen branches.runs
    have behind := unseen.behind_then chosen thenPlaced
    exact ⟨later, Continuation.inside_ofBlock _, Continuation.whole_ofBlock _,
      behind.sublist (by simp), unseen.unmade_then chosen sound.unmade thenPlaced, tracks⟩
  | behind settles named =>
    obtain ⟨_, later, _, _, unseen, unmade, _, tracks⟩ := sound.settled settles
    obtain ⟨⟨⟨current, met, _⟩, _, _⟩, _, _⟩ := settles
    obtain ⟨inside, whole⟩ := sound.following met
    exact ⟨later, inside, whole, unseen, unmade, tracks⟩
  | inBody inlines =>
    obtain ⟨_, _, promising, body, _, _, tracks⟩ := sound.inlined inlines
    have unmade := sound.unmade.still (.ofMinted promising.sent promising.minted)
    exact ⟨_, Continuation.inside_ofBlock _, Continuation.whole_ofBlock _, body.sublist (by simp),
      unmade, tracks⟩

/-- No call behind the first one comes to a label that has been bound. -/
theorem Reaches.unmet (reaches : first.Reaches next) (sound : first.Sound stem done ledger) :
    next = first ∨ ∃ later, next.Unmet stem done later := by
  induction reaches with
  | refl => exact .inl rfl
  | tail _ makes ih =>
    rcases ih with rfl | ⟨later, unmet⟩
    · exact .inr (makes.unmet sound)
    · exact .inr (makes.unmet unmet.sound)

theorem Reaches.sound (reaches : first.Reaches next) (sound : first.Sound stem done ledger) :
    ∃ later, next.Sound stem done later := by
  rcases reaches.unmet sound with rfl | ⟨later, unmet⟩
  · exact ⟨ledger, sound⟩
  · exact ⟨later, unmet.sound⟩

end Step

end Call

end Unnest.Flatten
