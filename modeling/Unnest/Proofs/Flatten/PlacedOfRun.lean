import Unnest.Proofs.Flatten.Stages
import Unnest.Proofs.Flatten.Unseen

/-! A run that puts code into a block follows the rules, as long as the labels of the code
have not been bound. There is one lemma for each stage of the engine, about lighter code that
does so, and one recursion over the weight of the code. -/

namespace Unnest.Flatten
open Script

variable {stem fallThrough : String} {done : Nat} {run final : Run} {ledger : Ledger}
  {code rest : Continuation Stmt} {frame : Frame Stmt} {current : Stmt} {spot : Spot}
  {out : List Stmt}

section Descent

variable {isBound : String → Bool} {statement inner : Stmt} {body : List Stmt}

/-- What follows a statement is lighter than the code. -/
theorem weight_following_lt (met : code.At frame rest current) :
    (rest.pushFollowing frame).weight < code.weight := by
  have popWeight := weight_of_pop met.popped
  have followingWeight := weight_pushFollowing_le rest met.here
  have positive := two_le_weight current
  omega

theorem weight_push_unwraps_lt {afterInit : Bool} (met : code.At frame rest current)
    (arrival : arrive isBound current = .unwraps inner) :
    ((rest.pushFollowing frame).push ⟨[inner], 0, afterInit⟩).weight < code.weight := by
  have popWeight := weight_of_pop met.popped
  have followingWeight := weight_pushFollowing_le rest met.here
  have pushWeight := weight_push_le (rest.pushFollowing frame) ⟨[inner], 0, afterInit⟩
  have innerWeight := weight_of_unwraps arrival
  simp only [Frame.weight, Frame.remaining, List.drop_zero, weight_cons, weight_nil] at pushWeight
  omega

/-- The body of the statement that runs is lighter than the code, also with what follows. -/
theorem weight_push_runs_lt (met : code.At frame rest current)
    (arrival : arrive isBound current = .runs statement)
    (within : 2 + weight body ≤ statement.weight) :
    ((rest.pushFollowing frame).push ⟨body, 0, false⟩).weight < code.weight := by
  have popWeight := weight_of_pop met.popped
  have followingWeight := weight_pushFollowing_le rest met.here
  have pushWeight := weight_push_le (rest.pushFollowing frame) ⟨body, 0, false⟩
  have lighter := weight_of_runs arrival
  simp only [Frame.weight, Frame.remaining, List.drop_zero] at pushWeight
  omega

theorem weight_ofBlock_lt (met : code.At frame rest current)
    (arrival : arrive isBound current = .runs statement)
    (within : weight body + 2 ≤ statement.weight) :
    (Continuation.ofBlock body).weight < code.weight := by
  have popWeight := weight_of_pop met.popped
  have whole := weight_of_current met.here
  have bodyWeight := weight_ofBlock_le body
  have lighter := weight_of_runs arrival
  omega

theorem weight_then_le {test : Expr} {thenBody : List Stmt} {elseBody : Option (List Stmt)} :
    weight thenBody + 2 ≤ (Stmt.branch test thenBody elseBody).weight := by
  rw [Stmt.weight_children, Stmt.children, weight_append]
  omega

theorem weight_else_le {test : Expr} {thenBody elseBody : List Stmt} :
    weight elseBody + 2 ≤ (Stmt.branch test thenBody (some elseBody)).weight := by
  rw [Stmt.weight_children, Stmt.children, weight_append, Option.getD_some]
  omega

end Descent

/-- The labels of the code are free, except for the one that the block may start with. -/
structure Begun (stem : String) (ledger : Ledger) (spot : Spot) (code : Continuation Stmt) :
    Prop where
  fresh : Fresh stem ledger.names code.remaining
  owned : ∀ {frame rest current}, code.At frame rest current →
    Owned ledger spot frame rest current

/-- Code whose labels are all free can be placed anywhere. -/
theorem Unseen.begun (unseen : Unseen stem ledger.names code.remaining) (whole : code.Whole) :
    Begun stem ledger spot code where
  fresh := unseen.fresh
  owned {frame rest current} met := by
    have plain : frame.afterInit = false :=
      whole frame (met.frames ▸ List.mem_cons_self ..)
    refine ⟨fun other member => whole other (met.frames ▸ List.mem_cons_of_mem _ member), ?_, ?_⟩
    · intro _ label own bound
      obtain ⟨body, rfl⟩ := ownLabel_eq_some_iff.1 own
      refine absurd (Ledger.isBound_iff.1 bound) (unseen.unbound label ?_)
      rw [met.remaining]
      simp
    · intro resumed
      rw [plain] at resumed
      cases resumed

/-- Below a label stands no other label when a loop is resumed there. -/
theorem Owned.plain_of_unwraps {inner : Stmt} (owned : Owned ledger spot frame rest current)
    (arrival : arrive ledger.isBound current = .unwraps inner) : frame.afterInit = false := by
  by_contra resumed
  obtain ⟨loop, passed, own, _⟩ := owned.resumed (Bool.not_eq_false _ ▸ resumed)
  obtain ⟨label, rfl, bound, nested⟩ := unwraps_inv arrival
  cases passed with
  | plain none => cases none
  | below => exact nested own

/-- Below a label that is not bound no loop is resumed. -/
theorem Owned.plain_of_opens {label : String} (owned : Owned ledger spot frame rest current)
    (arrival : arrive ledger.isBound current = .opens label) : frame.afterInit = false := by
  by_contra resumed
  obtain ⟨loop, passed, own, _⟩ := owned.resumed (Bool.not_eq_false _ ▸ resumed)
  obtain ⟨unbound, inner, rfl⟩ := opens_inv arrival
  cases passed with
  | plain none => cases none
  | below bound =>
    rw [unbound] at bound
    cases bound

/-- Only a loop that contains labels is resumed behind its initializer. -/
theorem Owned.started_of_free {statement : Stmt} (owned : Owned ledger spot frame rest current)
    (arrival : arrive ledger.isBound current = .runs statement)
    (free : statement.containsLabels = false) : frame.afterInit = false := by
  by_contra resumed
  obtain ⟨loop, passed, own, labeled⟩ := owned.resumed (Bool.not_eq_false _ ▸ resumed)
  obtain ⟨plain, reached⟩ := runs_inv arrival
  rw [passed.unique own reached plain, free] at labeled
  cases labeled

/-- Below a bound label the code can be placed on. -/
theorem Begun.unwrapped {inner : Stmt} {later : Spot} (begun : Begun stem ledger spot code)
    (met : code.At frame rest current) (arrival : arrive ledger.isBound current = .unwraps inner) :
    Begun stem ledger later ((rest.pushFollowing frame).push ⟨[inner], 0, frame.afterInit⟩) := by
  have owned := begun.owned met
  have whole := Continuation.whole_pushFollowing owned.behind frame
  have unseen := begun.fresh.passed met (passed_of_unwraps arrival)
  exact unseen.single.begun (Continuation.whole_push whole (owned.plain_of_unwraps arrival))

/-- Without an alternative, control goes to the label after the branch. -/
theorem placed_absent (label : String) :
    Placed stem ledger (.ofBlock []) label .inside [.goto label] ledger :=
  .ends rfl

/-- Nothing more is placed after a branch whose following code is scheduled. -/
theorem placed_leftover_fresh {name : String} {placed : List Stmt}
    (closed : fallsThrough placed = false) :
    Placed stem ledger (Successor.leftover (.fresh name) code) fallThrough (.after placed) []
      ledger := by
  have ends : Placed stem ledger .empty fallThrough (.after placed) _ ledger := .ends rfl
  simpa [Spot.jump, Spot.after, closed, Successor.leftover] using ends

theorem Placed.closed {later : Ledger} {spot : Spot} (reached : spot.reached = true)
    (placed : Placed stem ledger code fallThrough spot out later) : fallsThrough out = false :=
  placed.closes [] (by rw [reached]; simp [fallsThrough])

/-- While a loop is laid out and its body placed, nobody claims the label that follows it. -/
theorem Promising.sendAll {between later : Ledger} {named : Ledger} {following : Continuation Stmt}
    {promises : List Promise} (promising : Promising stem ledger named following promises)
    (unseen : Unseen stem between.names following.remaining)
    (kept : between.keepAll? promises = some later) :
    between.sendAll? (promises.map Promise.block) = some later := by
  apply Ledger.sendAll_of_keepAll promising.single _ kept
  intro promise member may
  cases promising.promised promise member with
  | madeUp made => cases may
  | labeled same ahead =>
    next block body rest =>
    have declared : block.name ∈ labels following.remaining := by
      rw [ahead]
      simp
    refine ⟨unseen.unbound _ declared, ?_⟩
    intro other inside firm taken
    cases promising.promised other inside with
    | labeled => cases firm
    | madeUp made =>
      obtain ⟨index, _, _, named⟩ := made
      exact unseen.named _ declared index (taken.symm.trans named)

section Parts

variable {others thenBody : List Stmt} {elseBody : Option (List Stmt)} {test : Expr}
  {named between further : Ledger} {after : Successor} {following : List Stmt}

/-- The bodies of a branch can be placed one after the other, and then the code behind it. -/
theorem Unseen.in_then
    (unseen : Unseen stem ledger.names (.branch test thenBody elseBody :: others))
    (chosen : Chosen stem ledger fallThrough following after named) :
    Unseen stem named.names thenBody :=
  (unseen.grown (chosen.grows []) fun _ _ => List.not_mem_nil).sublist (by simp)

theorem Unseen.begun_then
    (unseen : Unseen stem ledger.names (.branch test thenBody elseBody :: others))
    (chosen : Chosen stem ledger fallThrough following after named) :
    Begun stem named spot (.ofBlock thenBody) :=
  ((unseen.in_then chosen).sublist (by simp)).begun (Continuation.whole_ofBlock _)

theorem Unseen.behind_then {label : String} {inThen : Spot} {thenFlat : List Stmt}
    (unseen : Unseen stem ledger.names (.branch test thenBody elseBody :: others))
    (chosen : Chosen stem ledger fallThrough following after named)
    (thenPlaced : Placed stem named (.ofBlock thenBody) label inThen thenFlat between) :
    Unseen stem between.names (elseBody.getD [] ++ others) := by
  have unseen := unseen.grown (chosen.grows []) fun _ _ => List.not_mem_nil
  obtain ⟨_, unseen, apart⟩ := unseen.halves thenBody (elseBody.getD [] ++ others) (by simp)
  exact unseen.grown thenPlaced.grows (by simpa using apart)

theorem Unseen.begun_else {label : String} {inThen : Spot} {thenFlat : List Stmt}
    (unseen : Unseen stem ledger.names (.branch test thenBody elseBody :: others))
    (chosen : Chosen stem ledger fallThrough following after named)
    (thenPlaced : Placed stem named (.ofBlock thenBody) label inThen thenFlat between) :
    Begun stem between spot (.ofBlock (elseBody.getD [])) :=
  ((unseen.behind_then chosen thenPlaced).sublist (by simp)).begun (Continuation.whole_ofBlock _)

theorem Unseen.behind_else {label : String} {inThen inElse : Spot} {thenFlat elseFlat : List Stmt}
    (unseen : Unseen stem ledger.names (.branch test thenBody elseBody :: others))
    (chosen : Chosen stem ledger fallThrough following after named)
    (thenPlaced : Placed stem named (.ofBlock thenBody) label inThen thenFlat between)
    (elsePlaced : Placed stem between (.ofBlock (elseBody.getD [])) label inElse elseFlat further) :
    Unseen stem further.names others := by
  obtain ⟨_, unseen, apart⟩ :=
    (unseen.behind_then chosen thenPlaced).halves (elseBody.getD []) others (by simp)
  exact unseen.grown elsePlaced.grows (by simpa using apart)

variable {loop : Stmt} {head : LoopHead} {body inner : List Stmt} {loopName : String}
  {plan : LoopPlan} {targets : LoopTargets}

/-- The body of a loop can be placed, and then the promised blocks can be scheduled. -/
theorem Unseen.inlined (unseen : Unseen stem ledger.names (loop :: others))
    (isLoop : loopOf loop = some (head, body)) (redirects : redirect targets body = .ok inner)
    (promising : Promising stem ledger named code plan.promises) :
    Unseen stem (named.inline loopName).names inner ∧
      Unseen stem (named.inline loopName).names others ∧
        ∀ label ∈ labels others, label ∉ labels inner := by
  have grows : Grows stem [] ledger (named.inline loopName) :=
    .ofMinted promising.sent promising.minted
  have within := labels_of_loopOf isLoop
  rw [← redirect_labels redirects] at within
  exact (unseen.grown grows fun _ _ => List.not_mem_nil).halves _ _
    (within.append (List.Sublist.refl _))

theorem Unseen.begun_body (unseen : Unseen stem ledger.names (loop :: others))
    (isLoop : loopOf loop = some (head, body)) (redirects : redirect targets body = .ok inner)
    (promising : Promising stem ledger named code plan.promises) :
    Begun stem (named.inline loopName) spot (.ofBlock inner) :=
  ((unseen.inlined isLoop redirects promising).1.sublist (by simp)).begun
    (Continuation.whole_ofBlock _)

theorem Unseen.behind_body {label : String} {inBody : Spot} {flat : List Stmt}
    (unseen : Unseen stem ledger.names (loop :: others))
    (isLoop : loopOf loop = some (head, body)) (redirects : redirect targets body = .ok inner)
    (promising : Promising stem ledger named code plan.promises)
    (placed : Placed stem (named.inline loopName) (.ofBlock inner) label inBody flat between) :
    Unseen stem between.names others := by
  obtain ⟨_, unseen, apart⟩ := unseen.inlined isLoop redirects promising
  exact unseen.grown placed.grows (by simpa using apart)

end Parts

/-- A run that puts the code into a block follows the rules, wherever that is possible. -/
def Placeable (stem : String) (code : Continuation Stmt) : Prop :=
  ∀ ⦃done : Nat⦄ ⦃ledger : Ledger⦄ ⦃run final : Run⦄ ⦃fallThrough : String⦄ ⦃spot : Spot⦄
    ⦃out : List Stmt⦄, code.Inside → Begun stem ledger spot code → Tracks stem done run ledger →
      place code fallThrough spot run = .ok out final →
        ∃ later, Placed stem ledger code fallThrough spot out later ∧ Tracks stem done final later

section Branch

variable {test : Expr} {thenBody thenFlat : List Stmt} {elseBody elseOut : Option (List Stmt)}
  {others following : List Stmt} {after : Successor} {named : Ledger} {middle : Run}

/-- A missing alternative is placed like an empty one. -/
theorem placed_of_placeElse {label : String}
    (inElse : ∀ body, elseBody = some body → Placeable stem (.ofBlock body))
    (begun : Begun stem ledger .inside (.ofBlock (elseBody.getD [])))
    (tracks : Tracks stem done run ledger)
    (success : placeElse place elseBody label run = .ok elseOut final) :
    ∃ elseFlat further, elseOut = elseBody.map (fun _ => elseFlat) ∧
      Placed stem ledger (.ofBlock (elseBody.getD [])) label .inside elseFlat further ∧
        Tracks stem done final further := by
  cases elseBody with
  | none =>
    cases success
    exact ⟨_, ledger, rfl, placed_absent _, tracks⟩
  | some elseBody =>
    obtain ⟨elseFlat, lastRun, success, result⟩ := RunM.bind_ok success
    cases result
    obtain ⟨further, elsePlaced, tracks⟩ :=
      inElse elseBody rfl (Continuation.inside_ofBlock _) begun tracks success
    exact ⟨elseFlat, further, rfl, elsePlaced, tracks⟩

/-- The bodies of a branch are placed one after the other, and nothing behind them is bound. -/
theorem Unseen.placed_bodies
    (unseen : Unseen stem ledger.names (.branch test thenBody elseBody :: others))
    (chosen : Chosen stem ledger fallThrough following after named)
    (inThen : Placeable stem (.ofBlock thenBody))
    (inElse : ∀ body, elseBody = some body → Placeable stem (.ofBlock body))
    (tracks : Tracks stem done run named)
    (thenPlaced : place (.ofBlock thenBody) after.name .inside run = .ok thenFlat middle)
    (elsePlaced : placeElse place elseBody after.name middle = .ok elseOut final) :
    ∃ between elseFlat further, elseOut = elseBody.map (fun _ => elseFlat) ∧
      Placed stem named (.ofBlock thenBody) after.name .inside thenFlat between ∧
      Placed stem between (.ofBlock (elseBody.getD [])) after.name .inside elseFlat further ∧
      Unseen stem further.names others ∧ Tracks stem done final further := by
  obtain ⟨between, thenPlaced, tracks⟩ :=
    inThen (Continuation.inside_ofBlock _) (unseen.begun_then chosen) tracks thenPlaced
  obtain ⟨elseFlat, further, same, elsePlaced, tracks⟩ :=
    placed_of_placeElse inElse (unseen.begun_else chosen thenPlaced) tracks elsePlaced
  exact ⟨between, elseFlat, further, same, thenPlaced, elsePlaced,
    unseen.behind_else chosen thenPlaced elsePlaced, tracks⟩

/-- The code behind a branch is placed, or its label is settled. -/
theorem Chosen.placed_behind {placed : List Stmt} {following : Continuation Stmt} {further : Ledger}
    (chosen : Chosen stem ledger fallThrough following.remaining after named)
    (closed : fallsThrough placed = false) (behind : Placeable stem following)
    (inside : following.Inside) (begun : Begun stem further (.after placed) following)
    (tracks : Tracks stem done run further)
    (success : placeBehind place after placed following fallThrough run = .ok out final) :
    ∃ settled others later, out = placed ++ others ∧
      further.settle? after following fallThrough = some settled ∧
      Placed stem settled (after.leftover following) fallThrough (.after placed) others later ∧
      Tracks stem done final later := by
  cases after with
  | fresh name =>
    obtain ⟨_, queued, sent, success⟩ := RunM.bind_ok success
    cases success
    have ready := chosen.promising.ready inside _ (List.mem_singleton_self _)
    obtain ⟨later, sent, tracks⟩ := tracks.enqueue ready.more sent
    exact ⟨later, [], later, (List.append_nil _).symm, sent, placed_leftover_fresh closed, tracks⟩
  | next | fallThrough =>
    obtain ⟨others, lastRun, success, result⟩ := RunM.bind_ok success
    cases result
    obtain ⟨later, placed, tracks⟩ := behind inside begun tracks success
    exact ⟨further, others, later, rfl, rfl, placed, tracks⟩

end Branch

/-- The engine comes to a statement that runs, and neither its labels nor those behind it are
bound. -/
structure Running (stem : String) (ledger : Ledger) (spot : Spot) (code : Continuation Stmt)
    (frame : Frame Stmt) (rest : Continuation Stmt) (current statement : Stmt) : Prop where
  inside : code.Inside
  met : code.At frame rest current
  owned : Owned ledger spot frame rest current
  arrival : arrive ledger.isBound current = .runs statement
  unseen : Unseen stem ledger.names (statement :: (rest.pushFollowing frame).remaining)

/-- Behind a bound label nothing is bound. -/
theorem Begun.running {statement : Stmt} (begun : Begun stem ledger spot code)
    (inside : code.Inside) (met : code.At frame rest current)
    (arrival : arrive ledger.isBound current = .runs statement) :
    Running stem ledger spot code frame rest current statement where
  inside := inside
  met := met
  owned := begun.owned met
  arrival := arrival
  unseen := begun.fresh.passed met (runs_inv arrival).2

namespace Running

section Following

variable {statement : Stmt}
  (running : Running stem ledger spot code frame rest current statement)
include running

theorem inside_following : (rest.pushFollowing frame).Inside :=
  running.met.inside_following running.inside

theorem whole_following : (rest.pushFollowing frame).Whole :=
  Continuation.whole_pushFollowing running.owned.behind frame

/-- The code behind the statement can be placed. -/
theorem begun_following {later : Spot} : Begun stem ledger later (rest.pushFollowing frame) :=
  (running.unseen.sublist (List.sublist_append_right _ _)).begun running.whole_following

end Following

/-- The statements of a block can be placed instead of it. -/
theorem begun_splice {body : List Stmt} {later : Spot}
    (running : Running stem ledger spot code frame rest current (.block body)) :
    Begun stem ledger later ((rest.pushFollowing frame).push ⟨body, 0, false⟩) :=
  running.unseen.spliced.begun (Continuation.whole_push running.whole_following rfl)

theorem weight_splice_lt {body : List Stmt}
    (running : Running stem ledger spot code frame rest current (.block body)) :
    ((rest.pushFollowing frame).push ⟨body, 0, false⟩).weight < code.weight :=
  weight_push_runs_lt running.met running.arrival
    (Nat.le_of_eq (Stmt.weight_children (.block body)).symm)

theorem placed_branch {test : Expr} {thenBody : List Stmt} {elseBody : Option (List Stmt)}
    (running : Running stem ledger spot code frame rest current
      (.branch test thenBody elseBody))
    (labeled : (Stmt.branch test thenBody elseBody).containsLabels = true)
    (inThen : Placeable stem (.ofBlock thenBody))
    (inElse : ∀ body, elseBody = some body → Placeable stem (.ofBlock body))
    (behind : Placeable stem (rest.pushFollowing frame)) (tracks : Tracks stem done run ledger)
    (success : placeBranch place test thenBody elseBody (rest.pushFollowing frame) fallThrough run =
      .ok out final) :
    ∃ later, Placed stem ledger code fallThrough spot out later ∧ Tracks stem done final later := by
  obtain ⟨after, middle, chosen, success⟩ := RunM.bind_ok success
  obtain ⟨named, chosen, tracks⟩ := tracks.labelAfter running.inside_following chosen
  have choice := chosen_of_successor chosen
  obtain ⟨_, reported, event, success⟩ := RunM.bind_ok success
  obtain ⟨thenFlat, afterThen, thenPlaced, success⟩ := RunM.bind_ok success
  obtain ⟨elseOut, afterElse, elsePlaced, success⟩ := RunM.bind_ok success
  obtain ⟨between, elseFlat, further, rfl, thenPlaced, elsePlaced, unseen, tracks⟩ :=
    running.unseen.placed_bodies choice inThen inElse (tracks.reportEvent event) thenPlaced elsePlaced
  have closed := flatBranch_closed test elseBody after.name (thenPlaced.closed rfl)
    (elsePlaced.closed rfl)
  obtain ⟨settled, others, later, rfl, settles, placed, tracks⟩ :=
    choice.placed_behind closed behind running.inside_following
      (unseen.begun running.whole_following) tracks success
  exact ⟨later, .branches running.met running.owned running.arrival labeled chosen thenPlaced
    elsePlaced settles placed, tracks⟩

section Loop

variable {loop : Stmt} {head : LoopHead} {body : List Stmt}
  (running : Running stem ledger spot code frame rest current loop)
  (labeled : loop.containsLabels = true) (isLoop : loopOf loop = some (head, body))
  (plainInit : head.labeledInit = none)
include running labeled isLoop plainInit

theorem placed_inlineLoop {loopName : String} (start : spot.reentry = some loopName)
    (ready : head.pendingInit frame.afterInit = [])
    (inBody : ∀ targets inner, redirect targets body = .ok inner → Placeable stem (.ofBlock inner))
    (tracks : Tracks stem done run ledger)
    (success : inlineLoop place head body loopName (rest.pushFollowing frame) fallThrough run =
      .ok out final) :
    ∃ later, Placed stem ledger code fallThrough spot out later ∧ Tracks stem done final later := by
  obtain ⟨plan, middle, planned, success⟩ := RunM.bind_ok success
  obtain ⟨named, planned, tracks⟩ := tracks.planLoop running.inside_following planned
  have promising := layout_promising planned
  cases redirects : redirect plan.targets body with
  | error fault =>
    simp only [redirects] at success
    cases success
  | ok inner =>
    simp only [redirects] at success
    obtain ⟨flat, middle, success, keeps⟩ := RunM.bind_ok success
    obtain ⟨between, placed, tracks⟩ := inBody _ _ redirects (Continuation.inside_ofBlock _)
      (running.unseen.begun_body isLoop redirects promising) tracks success
    obtain ⟨_, lastRun, kept, result⟩ := RunM.bind_ok keeps
    cases result
    have more (promise : Promise) (member : promise ∈ plan.promises) :=
      (promising.ready running.inside_following promise member).more
    obtain ⟨later, kept, tracks⟩ := tracks.keepAll more kept
    have sent := promising.sendAll
      (running.unseen.behind_body isLoop redirects promising placed) kept
    exact ⟨later, .inlines running.met running.owned running.arrival labeled isLoop plainInit start
      ready planned redirects placed sent, tracks⟩

/-- A loop that is not ready is moved to a block of its own. -/
theorem placed_split {jump : List Stmt}
    (unready : spot.reentry = none ∨ head.pendingInit frame.afterInit ≠ [])
    (tracks : Tracks stem done run ledger)
    (success : splitBeforeLoop (head.resumption frame) rest fallThrough run = .ok jump final) :
    ∃ later, Placed stem ledger code fallThrough spot
      (head.pendingInit frame.afterInit ++ jump) later ∧ Tracks stem done final later := by
  obtain ⟨loopTop, middle, minted, success⟩ := RunM.bind_ok success
  obtain ⟨rfl, tracks⟩ := tracks.freshName minted
  obtain ⟨_, reported, event, success⟩ := RunM.bind_ok success
  obtain ⟨_, queued, sent, success⟩ := RunM.bind_ok success
  cases success
  have inside : (head.resumption frame).index < (head.resumption frame).block.length := by
    obtain ⟨inside, _⟩ := List.getElem?_eq_some_iff.1 running.met.here
    cases head <;> exact inside
  obtain ⟨later, sent, tracks⟩ :=
    (tracks.move event).enqueue (Continuation.isEmpty_push rest inside) sent
  exact ⟨later, .splits running.met running.owned running.arrival labeled isLoop plainInit unready
    sent, tracks⟩

omit plainInit in
theorem placed_loop
    (inBody : ∀ targets inner, redirect targets body = .ok inner → Placeable stem (.ofBlock inner))
    (tracks : Tracks stem done run ledger)
    (success : placeLoop place head body frame rest fallThrough spot run = .ok out final) :
    ∃ later, Placed stem ledger code fallThrough spot out later ∧ Tracks stem done final later := by
  cases plainInit : head.labeledInit with
  | some kind =>
    rw [placeLoop_of_labeledInit plainInit] at success
    cases success
  | none =>
    rcases ready_or_unready head frame spot with ⟨loopName, start, ready⟩ | unready
    · rw [placeLoop_of_ready plainInit start ready] at success
      exact running.placed_inlineLoop labeled isLoop plainInit start ready inBody tracks success
    · rw [placeLoop_of_unready plainInit unready] at success
      obtain ⟨jump, lastRun, moved, result⟩ := RunM.bind_ok success
      cases result
      exact running.placed_split labeled isLoop plainInit unready tracks moved

end Loop

section Statement

variable {statement : Stmt}
  (running : Running stem ledger spot code frame rest current statement)
include running

/-- The body of a loop is lighter than the code, also when its jumps have been redirected. -/
theorem weight_inner_lt {head : LoopHead} {body inner : List Stmt} {targets : LoopTargets}
    (isLoop : loopOf statement = some (head, body)) (redirects : redirect targets body = .ok inner) :
    (Continuation.ofBlock inner).weight < code.weight := by
  have loopWeight := weight_of_loopOf isLoop
  rw [← redirect_weight targets body inner redirects] at loopWeight
  exact weight_ofBlock_lt running.met running.arrival loopWeight

variable (lighter : ∀ other : Continuation Stmt, other.weight < code.weight → Placeable stem other)
include lighter

theorem placed_labeled (labeled : statement.containsLabels = true)
    (tracks : Tracks stem done run ledger)
    (success : placeLabeled place statement frame rest fallThrough spot run = .ok out final) :
    ∃ later, Placed stem ledger code fallThrough spot out later ∧ Tracks stem done final later := by
  have ⟨_, met, owned, arrival, _⟩ := running
  cases statement with
  | block body =>
    obtain ⟨later, placed, tracks⟩ := lighter _ running.weight_splice_lt
      (Continuation.inside_push running.inside_following _) running.begun_splice tracks success
    exact ⟨later, .splices met owned arrival labeled placed, tracks⟩
  | branch test thenBody elseBody =>
    have inThen := lighter (.ofBlock thenBody) (weight_ofBlock_lt met arrival weight_then_le)
    have inElse : ∀ body, elseBody = some body → Placeable stem (.ofBlock body) := by
      rintro body rfl
      exact lighter (.ofBlock body) (weight_ofBlock_lt met arrival weight_else_le)
    exact running.placed_branch labeled inThen inElse (lighter _ (weight_following_lt met)) tracks
      success
  | whileLoop | doLoop | forLoop =>
    exact running.placed_loop labeled rfl
      (fun _ inner redirects => lighter _ (running.weight_inner_lt rfl redirects)) tracks success
  | _ => cases success

theorem placed_statement (tracks : Tracks stem done run ledger)
    (success : placeStatement place statement frame rest fallThrough spot run = .ok out final) :
    ∃ later, Placed stem ledger code fallThrough spot out later ∧ Tracks stem done final later := by
  unfold placeStatement at success
  cases labeled : statement.containsLabels with
  | true =>
    simp only [labeled, if_true] at success
    exact running.placed_labeled lighter labeled tracks success
  | false =>
    simp only [labeled, Bool.false_eq_true, if_false] at success
    cases plain : statement.namedJump with
    | some jump =>
      simp only [plain] at success
      cases success
    | none =>
      simp only [plain] at success
      obtain ⟨others, middle, success, result⟩ := RunM.bind_ok success
      cases result
      obtain ⟨later, placed, tracks⟩ := lighter _ (weight_following_lt running.met)
        running.inside_following running.begun_following tracks success
      exact ⟨later, .copies running.met running.owned running.arrival labeled plain placed, tracks⟩

end Statement

end Running

theorem placeable (code : Continuation Stmt) : Placeable stem code := by
  intro done ledger run final fallThrough spot out inside begun tracks success
  have lighter (other : Continuation Stmt) (less : other.weight < code.weight) :
      Placeable stem other := placeable other
  rcases inside.cases with nothing | ⟨frame, rest, current, met⟩
  · rw [place_of_pop_none nothing] at success
    cases success
    exact ⟨ledger, .ends nothing, tracks⟩
  rw [place_of_at met] at success
  obtain ⟨same, middle, got, success⟩ := RunM.bind_ok success
  cases got
  have owned := begun.owned met
  cases arrival : arrive run.isBound current with
  | opens label =>
    simp only [arrival] at success
    rw [funext tracks.isBound] at arrival
    obtain ⟨_, reported, event, success⟩ := RunM.bind_ok success
    obtain ⟨_, queued, sent, success⟩ := RunM.bind_ok success
    cases success
    rw [met.push_back] at sent
    obtain ⟨later, sent, tracks⟩ :=
      (tracks.reportEvent event).enqueue (Continuation.isEmpty_of_at met) sent
    exact ⟨later, .opens met owned arrival sent, tracks⟩
  | unwraps inner =>
    simp only [arrival] at success
    rw [funext tracks.isBound] at arrival
    obtain ⟨later, placed, tracks⟩ := lighter _ (weight_push_unwraps_lt met arrival)
      (Continuation.inside_push (met.inside_following inside) _) (begun.unwrapped met arrival) tracks
      success
    exact ⟨later, .unwraps met owned arrival placed, tracks⟩
  | runs statement =>
    simp only [arrival] at success
    rw [funext tracks.isBound] at arrival
    have running := begun.running inside met arrival
    exact running.placed_statement lighter tracks success
termination_by code.weight
decreasing_by exact less

end Unnest.Flatten
