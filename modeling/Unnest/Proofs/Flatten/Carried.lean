import Unnest.Proofs.Flatten.Flattened

/-! Properties of statements that flattening carries over. When taking a statement apart
keeps the property, and the generated statements have it, the blocks have it whenever the
body does. -/

namespace Unnest.Flatten
open Script

/-- The property passes from a statement to what flattening makes of it. Generated gotos
lead to known names only. -/
structure Carried (known : String → Prop) (holds : Stmt → Prop) : Prop where
  block {body : List Stmt} : holds (.block body) → ∀ statement ∈ body, holds statement
  branch {test : Expr} {thenBody : List Stmt} {elseBody : Option (List Stmt)} :
    holds (.branch test thenBody elseBody) ↔
      (∀ statement ∈ thenBody, holds statement) ∧ ∀ statement ∈ elseBody.getD [], holds statement
  labeled {label : String} {body : Stmt} : holds (.labeled label body) → known label ∧ holds body
  goto {target : String} : known target → holds (.goto target)
  expression {value : Expr} : holds (.expression value)
  init {init : Stmt} {condition iterator : Option Expr} {body : List Stmt} :
    holds (.forLoop init condition iterator body) → holds init
  loop {loop : Stmt} {head : LoopHead} {body inner : List Stmt} {targets : LoopTargets} :
    holds loop → loop.containsLabels = true → loopOf loop = some (head, body) →
      redirect targets body = .ok inner → (targets.breakTo = none → containsBreak body = false) →
        (∀ target, targets.breakTo = some target → known target) → known targets.continueTo →
          ∀ statement ∈ inner, holds statement

/-- The block has the property throughout and falls through to a known name. -/
structure Pending.Holds (known : String → Prop) (holds : Stmt → Prop) (block : Pending) : Prop where
  code : ∀ statement ∈ block.continuation.remaining, holds statement
  fallThrough : known block.fallThrough

/-- What a loop that is taken apart is made of. -/
structure PlanHolds (known : String → Prop) (holds : Stmt → Prop) (plan : LoopPlan) : Prop where
  guard : ∀ statement ∈ plan.guard, holds statement
  breaks : ∀ target, plan.targets.breakTo = some target → known target
  continues : known plan.targets.continueTo
  promises : ∀ promise ∈ plan.promises, promise.block.Holds known holds

section Carried

variable {known : String → Prop} {holds : Stmt → Prop} {stem fallThrough : String}
  {ledger named between later : Ledger} {following code rest : Continuation Stmt}
  {frame : Frame Stmt} {current inner : Stmt}

theorem Carried.passed {isBound : String → Bool} (carried : Carried known holds)
    (here : holds current) (passed : Passed isBound current inner) : holds inner := by
  cases passed with
  | plain own => exact here
  | below bound => exact (carried.labeled here).2

/-- The property holds of the statement that runs and of everything behind it. -/
theorem Carried.ahead {isBound : String → Bool} (carried : Carried known holds)
    (all : ∀ statement ∈ code.remaining, holds statement) (met : code.At frame rest current)
    (passed : Passed isBound current inner) :
    holds inner ∧ ∀ statement ∈ (rest.pushFollowing frame).remaining, holds statement := by
  rw [met.remaining, List.forall_mem_cons] at all
  exact ⟨carried.passed all.1 passed, all.2⟩

theorem Carried.jump (carried : Carried known holds) {spot : Spot} {label : String}
    (goal : known label) : ∀ statement ∈ spot.jump label, holds statement := by
  unfold Spot.jump
  split
  · rw [List.forall_mem_singleton]
    exact carried.goto goal
  · nofun

/-- A branch that only jumps has the property when the jump leads to a known name. -/
theorem Carried.ifThen (carried : Carried known holds) {test : Expr} {label : String}
    (goal : known label) : holds (.ifThen test [.goto label]) :=
  carried.branch.2 ⟨by rw [List.forall_mem_singleton]; exact carried.goto goal, nofun⟩

theorem Carried.flatBranch (carried : Carried known holds) {test : Expr}
    {thenFlat elseFlat : List Stmt} {elseBody : Option (List Stmt)} {label : String}
    (thenHolds : ∀ statement ∈ thenFlat, holds statement)
    (elseHolds : ∀ statement ∈ elseFlat, holds statement) (goal : known label) :
    ∀ statement ∈ flatBranch test thenFlat (elseBody.map fun _ => elseFlat) label,
      holds statement := by
  cases elseBody with
  | none =>
    exact List.forall_mem_cons.2 ⟨carried.branch.2 ⟨thenHolds, nofun⟩,
      List.forall_mem_singleton.2 (carried.goto goal)⟩
  | some body => exact List.forall_mem_singleton.2 (carried.branch.2 ⟨thenHolds, elseHolds⟩)

theorem Carried.pendingInit (carried : Carried known holds) {loop : Stmt} {head : LoopHead}
    {body : List Stmt} (afterInit : Bool) (here : holds loop)
    (isLoop : loopOf loop = some (head, body)) :
    ∀ statement ∈ head.pendingInit afterInit, holds statement := by
  cases loop <;> simp only [loopOf, reduceCtorEq, Option.some.injEq, Prod.mk.injEq] at isLoop <;>
    obtain ⟨rfl, rfl⟩ := isLoop
  · exact List.forall_mem_nil _
  · exact List.forall_mem_nil _
  · next init condition iterator body =>
    intro statement member
    have same : statement = init := by
      cases afterInit <;> cases init <;> simp_all [LoopHead.pendingInit]
    rw [same]
    exact carried.init here

theorem Carried.chosen (carried : Carried known holds) {statements : List Stmt}
    {after : Successor} (chosen : Chosen stem ledger fallThrough statements after named)
    (all : ∀ statement ∈ statements, holds statement) (falls : known fallThrough)
    (made : ∀ index < named.minted, known (Mint.nameAt stem index)) : known after.name := by
  cases chosen with
  | nothing => exact falls
  | labeled => exact (carried.labeled (all _ (List.mem_cons_self ..))).1
  | plain own => exact made ledger.minted (Nat.lt_succ_self _)

theorem promises_hold {after : Successor}
    (all : ∀ statement ∈ following.remaining, holds statement) (falls : known fallThrough) :
    ∀ promise ∈ after.promises following fallThrough, promise.block.Holds known holds := by
  intro promise member
  cases after <;> simp only [Successor.promises, List.mem_singleton, List.not_mem_nil] at member
  all_goals
    subst member
    exact ⟨all, falls⟩

theorem Carried.layout (carried : Carried known holds) {head : LoopHead} {body : List Stmt}
    {loopName : String} {plan : LoopPlan}
    (planned : layout stem head body loopName following fallThrough ledger = (plan, named))
    (all : ∀ statement ∈ following.remaining, holds statement) (falls : known fallThrough)
    (top : known loopName) (made : ∀ index < named.minted, known (Mint.nameAt stem index)) :
    PlanHolds known holds plan := by
  have chosen := chosen_successor stem ledger following.remaining fallThrough
  have chosenNext := chosen_successor stem ledger.mint following.remaining fallThrough
  have guards {label : String} {condition : Expr} (goal : known label) :
      ∀ statement ∈ [exitGuard label condition], holds statement :=
    List.forall_mem_singleton.2 (carried.ifThen goal)
  cases head with
  | whileHead condition =>
    cases planned
    have after := carried.chosen chosen all falls made
    exact ⟨guards after, by rintro _ ⟨⟩; exact after, top, promises_hold all falls⟩
  | doHead condition =>
    unfold Flatten.layout at planned
    cases breaks : containsBreak body with
    | true =>
      simp only [breaks, if_true] at planned
      cases planned
      have after := carried.chosen chosenNext all falls made
      have first : known (ledger.upcoming stem) :=
        made ledger.minted (Nat.lt_of_succ_le chosenNext.minted)
      refine ⟨nofun, by rintro _ ⟨⟩; exact after, first, ?_⟩
      intro promise member
      rcases List.mem_append.1 member with later | check
      · exact promises_hold all falls promise later
      · cases List.mem_singleton.1 check
        refine ⟨?_, after⟩
        rw [Continuation.remaining_ofBlock, List.forall_mem_singleton]
        exact carried.ifThen top
    | false =>
      simp only [breaks, Bool.false_eq_true, if_false] at planned
      cases planned
      refine ⟨nofun, nofun, made ledger.minted (Nat.lt_succ_self _), ?_⟩
      intro promise member
      cases List.mem_singleton.1 member
      refine ⟨?_, falls⟩
      rw [Continuation.remaining_push]
      exact List.forall_mem_cons.2 ⟨carried.ifThen top, all⟩
  | forHead init condition iterator =>
    have guard {label : String} (goal : known label) :
        ∀ statement ∈ (condition.map (exitGuard label)).toList, holds statement := by
      cases condition with
      | none => nofun
      | some condition => exact guards goal
    cases iterator with
    | none =>
      cases planned
      have after := carried.chosen chosen all falls made
      exact ⟨guard after, by rintro _ ⟨⟩; exact after, top, promises_hold all falls⟩
    | some iterator =>
      cases planned
      have after := carried.chosen chosenNext all falls made
      refine ⟨guard after, by rintro _ ⟨⟩; exact after,
        made ledger.minted (Nat.lt_of_succ_le chosenNext.minted), ?_⟩
      intro promise member
      rcases List.mem_append.1 member with step | later
      · cases List.mem_singleton.1 step
        refine ⟨?_, top⟩
        rw [Continuation.remaining_ofBlock]
        exact List.forall_mem_cons.2
          ⟨carried.expression, List.forall_mem_singleton.2 (carried.goto top)⟩
      · exact promises_hold all falls promise later

/-- What is placed has the property, and so have the blocks that are scheduled on the way. -/
theorem Placed.carried (carried : Carried known holds) {spot : Spot} {out : List Stmt}
    (placed : Placed stem ledger code fallThrough spot out later)
    (all : ∀ statement ∈ code.remaining, holds statement) (falls : known fallThrough)
    (reentry : ∀ name, spot.reentry = some name → known name)
    (made : ∀ index < later.minted, known (Mint.nameAt stem index)) :
    (∀ statement ∈ out, holds statement) ∧ Sends (Pending.Holds known holds) ledger later := by
  induction placed with
  | ends nothing => exact ⟨carried.jump falls, .none rfl⟩
  | opens met owned arrival sent =>
    obtain ⟨_, inner, rfl⟩ := opens_inv arrival
    have label := (carried.labeled (all _ (by rw [met.remaining]; exact List.mem_cons_self ..))).1
    exact ⟨carried.jump label, .ofSend sent ⟨all, falls⟩⟩
  | unwraps met owned arrival placed ih =>
    obtain ⟨here, others⟩ := carried.ahead all met (passed_of_unwraps arrival)
    apply ih _ falls reentry made
    rw [Continuation.remaining_push]
    exact List.forall_mem_cons.2 ⟨here, others⟩
  | copies met owned arrival free plain placed ih =>
    obtain ⟨here, others⟩ := carried.ahead all met (runs_inv arrival).2
    obtain ⟨outHolds, sentHold⟩ := ih others falls nofun made
    exact ⟨List.forall_mem_cons.2 ⟨here, outHolds⟩, sentHold⟩
  | splices met owned arrival labeled placed ih =>
    obtain ⟨here, others⟩ := carried.ahead all met (runs_inv arrival).2
    apply ih _ falls reentry made
    rw [Continuation.remaining_push]
    exact List.forall_mem_append.2 ⟨carried.block here, others⟩
  | @branches ledger named between settled further later code rest frame current test thenBody
      elseBody fallThrough spot after _ _ _ met owned arrival labeled chosen thenPlaced elsePlaced settles
      placed ihThen ihElse ih =>
    obtain ⟨here, others⟩ := carried.ahead all met (runs_inv arrival).2
    obtain ⟨thenHolds, elseHolds⟩ := carried.branch.1 here
    have chosen := chosen_of_successor chosen
    have atSettled := placed.grows.minted
    have atFurther := (settle_inv settles).2
    have atBetween := elsePlaced.grows.minted
    have atNamed := thenPlaced.grows.minted
    have goal := carried.chosen chosen others falls fun index upper => made index (by omega)
    obtain ⟨thenOut, thenSent⟩ := ihThen (by simpa using thenHolds) goal nofun
      fun index upper => made index (by omega)
    obtain ⟨elseOut, elseSent⟩ := ihElse (by simpa using elseHolds) goal nofun
      fun index upper => made index (by omega)
    obtain ⟨restOut, restSent⟩ := ih
      (fun statement left => others statement (remaining_leftover_subset _ _ left)) falls nofun made
    refine ⟨List.forall_mem_append.2 ⟨carried.flatBranch thenOut elseOut goal, restOut⟩, ?_⟩
    have behind := (Sends.settle settles fun _ _ => ⟨others, falls⟩).trans restSent
    exact ((thenSent.trans elseSent).trans behind).since chosen.sent
  | @inlines ledger named between later code rest frame current loop head body inner flat loopName
      fallThrough spot plan met owned arrival labeled isLoop plainInit start ready planned redirects
      placed kept ih =>
    obtain ⟨here, others⟩ := carried.ahead all met (runs_inv arrival).2
    have same : later.minted = between.minted := by rw [Ledger.sendAll_inv kept]
    have atNamed : named.minted ≤ between.minted := placed.grows.minted
    have plans := carried.layout planned others falls (reentry loopName start)
      fun index upper => made index (by omega)
    have innerHolds := carried.loop here labeled isLoop redirects (layout_breakTo planned)
      plans.breaks plans.continues
    obtain ⟨outHolds, sentHold⟩ := ih (by simpa using innerHolds) plans.continues nofun
      fun index upper => made index (by omega)
    refine ⟨List.forall_mem_append.2 ⟨plans.guard, outHolds⟩, ?_⟩
    have promised := Sends.ofSendAll kept (List.forall_mem_map.2 plans.promises)
    exact (sentHold.trans promised).since (layout_promising planned).sent
  | @splits ledger later code rest frame current loop head body fallThrough spot met owned arrival
      labeled isLoop plainInit unready sent =>
    obtain ⟨here, _⟩ := carried.ahead all met (runs_inv arrival).2
    have top : known (ledger.upcoming stem) :=
      made ledger.minted (by rw [(Ledger.send_inv sent).2]; exact Nat.lt_succ_self _)
    refine ⟨List.forall_mem_append.2 ⟨carried.pendingInit _ here isLoop,
      List.forall_mem_singleton.2 (carried.goto top)⟩, (Sends.ofSend sent ⟨?_, ?_⟩).since rfl⟩
    · rw [At.remaining_resumption met]
      exact all
    · exact falls

theorem Made.minted_le {done last : Nat} {blocks : List LabeledBlock}
    (made : Made stem done ledger blocks last later) : ledger.minted ≤ later.minted := by
  induction made with
  | stops => exact Nat.le_refl _
  | makes waits placed made ih => exact Nat.le_trans placed.grows.minted ih

theorem Made.sent {done last : Nat} {blocks : List LabeledBlock}
    (made : Made stem done ledger blocks last later) :
    ∃ more, later.sent = ledger.sent ++ more := by
  induction made with
  | stops => exact ⟨[], (List.append_nil _).symm⟩
  | makes waits placed made ih =>
    obtain ⟨front, same⟩ := placed.grows.sent
    obtain ⟨back, others⟩ := ih
    exact ⟨front ++ back, by rw [others, same, List.append_assoc]⟩

theorem Made.names_subset {done last : Nat} {blocks : List LabeledBlock}
    (made : Made stem done ledger blocks last later) : ledger.names ⊆ later.names := by
  obtain ⟨more, sent⟩ := made.sent
  rw [names_of_sent sent]
  exact List.subset_append_left _ _

/-- All blocks have the property if the blocks that wait do, and so do those that go on waiting. -/
theorem Made.carries (carried : Carried known holds) {done last : Nat}
    {blocks : List LabeledBlock} (made : Made stem done ledger blocks last later)
    (bound : ∀ name ∈ later.names, known name)
    (minted : ∀ index < later.minted, known (Mint.nameAt stem index))
    (waiting : ∀ block ∈ ledger.sent, block.Holds known holds) :
    (∀ block ∈ blocks, ∀ statement ∈ block.statements, holds statement) ∧
      ∀ block ∈ later.sent, block.Holds known holds := by
  induction made with
  | stops => exact ⟨nofun, waiting⟩
  | @makes done last ledger between later block out others waits placed rest ih =>
    obtain ⟨code, falls⟩ := waiting block (List.mem_of_getElem? waits)
    have named : block.name ∈ later.names :=
      rest.names_subset (placed.grows.names_subset
        (List.mem_map.2 ⟨block, List.mem_of_getElem? waits, rfl⟩))
    obtain ⟨outHolds, sentHold⟩ := placed.carried carried code falls
      (by rintro name ⟨⟩; exact bound _ named)
      fun index upper => minted index (Nat.lt_of_lt_of_le upper rest.minted_le)
    obtain ⟨othersHold, laterHold⟩ := ih bound minted fun other inSent =>
      (sentHold other inSent).elim (waiting other) id
    exact ⟨List.forall_mem_cons.2 ⟨outHolds, othersHold⟩, laterHold⟩

theorem Made.carried (carried : Carried known holds) {done last : Nat}
    {blocks : List LabeledBlock} (made : Made stem done ledger blocks last later)
    (bound : ∀ name ∈ later.names, known name)
    (minted : ∀ index < later.minted, known (Mint.nameAt stem index))
    (waiting : ∀ block ∈ ledger.sent, block.Holds known holds) :
    ∀ block ∈ blocks, ∀ statement ∈ block.statements, holds statement :=
  (made.carries carried bound minted waiting).1

end Carried

/-- The block for the whole body has a property that all of the body has. -/
theorem entry_holds {holds : Stmt → Prop} {options : Options} {body : List Stmt}
    (all : ∀ statement ∈ body, holds statement) :
    ∀ block ∈ (entryLedger options body).sent, block.Holds (fun _ => True) holds := by
  intro entry first
  cases List.mem_singleton.1 first
  refine ⟨?_, trivial⟩
  rw [Continuation.remaining_ofBlock]
  exact all

/-- The blocks of a body have every property that is carried over, whatever names are used. -/
theorem Flattened.carried {holds : Stmt → Prop} {options : Options} {body : List Stmt}
    {blocks : List LabeledBlock} (flattened : Flattened options body blocks)
    (carried : Carried (fun _ => True) holds) (all : ∀ statement ∈ body, holds statement) :
    ∀ block ∈ blocks, ∀ statement ∈ block.statements, holds statement := by
  cases flattened with
  | nothing accepted =>
    rw [List.forall_mem_singleton, List.forall_mem_singleton]
    exact carried.goto trivial
  | something accepted made =>
    exact made.carried carried (fun _ _ => trivial) (fun _ _ => trivial) (entry_holds all)

end Unnest.Flatten
