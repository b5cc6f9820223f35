import Unnest.Proofs.Flatten.Orphans
import Unnest.Proofs.Semantics.LoopMeaning

/-! Code shows no more than the blocks that it is put into. When the labels show at least what
the statements of their blocks do, they show at least what the code meant, from its beginning
and from every label in it. -/

namespace Unnest.Flatten
open Script

universe u

variable {σ : Type u} {meant : Interpretation σ} {shows : String → Sights σ} {exits : Exits σ}

/-- The block means no more than its name shows, and the code no more than the labels in it. -/
structure Pending.Below (meant : Interpretation σ) (shows : String → Sights σ) (block : Pending) :
    Prop where
  whole : block.meaning meant shows ≤ shows block.name
  labels : ∀ entry ∈ block.entries meant shows, entry.2 ≤ shows entry.1

/-- Code shows no more than what is put into a block for it, if control comes there, and no more
than the labels in it. -/
structure Refines (meant : Interpretation σ) (shows : String → Sights σ) (exits : Exits σ)
    (reached : Bool) (code out : List Stmt) : Prop where
  whole : reached = true → meaning meant exits code ≤ meaning meant exits out
  labels : ∀ entry ∈ entries meant exits code, entry.2 ≤ shows entry.1

section Below

variable {stem fallThrough loopName : String} {ledger named between later : Ledger}
  {code rest following : Continuation Stmt} {frame : Frame Stmt} {current inner loop : Stmt}
  {head : LoopHead} {body : List Stmt} {plan : LoopPlan} {spot : Spot} {out : List Stmt}
  {ahead behind : Sights σ}

/-- A label that has been passed shows the whole block. -/
theorem Refines.passed (met : code.At frame rest current)
    (owned : Owned ledger spot frame rest current) (passed : Passed ledger.isBound current inner)
    (top : ∀ name, spot.reentry = some name →
      spot.reached = true ∧ meaning meant exits out ≤ shows name)
    (refines : Refines meant shows exits spot.reached
      (dueOf frame.afterInit inner :: (rest.pushFollowing frame).remaining) out) :
    Refines meant shows exits spot.reached code.due out := by
  have whole : spot.reached = true → meaning meant exits code.due ≤ meaning meant exits out := by
    rw [passed.meaning_due met]
    exact refines.whole
  refine ⟨whole, ?_⟩
  rcases owned.entries_due met passed with same | ⟨label, start, same⟩
  · rw [same]
    exact refines.labels
  · obtain ⟨reached, shown⟩ := top label start
    rw [same, List.forall_mem_cons]
    exact ⟨(whole reached).trans shown, refines.labels⟩

/-- A loop shows no more than its block, when its body does and its block shows no more than its
name. -/
theorem Laid.refines {redirected flat : List Stmt} {afterInit : Bool}
    (laid : Laid meant shows head loopName ahead plan behind)
    (isLoop : loopOf loop = some (head, body)) (ready : head.pendingInit afterInit = [])
    (unchanged : SameMeaning meant redirected body (leading shows plan.targets.continueTo)
      (Exits.within { leading shows fallThrough with falls := behind }
        (shows plan.targets.continueTo)))
    (falls : ahead ≤ behind)
    (continues : head.again meant behind (shows loopName) ≤ shows plan.targets.continueTo)
    (top : meaning meant (leading shows fallThrough) (plan.guard ++ flat) ≤ shows loopName)
    (closed : fallsThrough flat = false)
    (refines : Refines meant shows (leading shows plan.targets.continueTo) true redirected flat) :
    (dueOf afterInit loop).meaning meant { leading shows fallThrough with falls := ahead } ≤
        meaning meant (leading shows fallThrough) (plan.guard ++ flat) ∧
      ∀ entry ∈ (dueOf afterInit loop).entries meant { leading shows fallThrough with falls := ahead },
        entry.2 ≤ shows entry.1 := by
  have under : Exits.Under { leading shows fallThrough with falls := ahead }
      { leading shows fallThrough with falls := behind } :=
    ⟨falls, le_rfl, le_rfl, fun _ => le_rfl⟩
  have goesOn {round : Sights σ} (rounds : round ≤ shows loopName) :
      head.again meant ahead round ≤ shows plan.targets.continueTo :=
    (head.again_mono falls rounds).trans continues
  have rounds {round : Sights σ} (rounds : round ≤ shows loopName) :
      head.round meant { leading shows fallThrough with falls := ahead } body round ≤
        meaning meant (leading shows fallThrough) (plan.guard ++ flat) := by
    rw [laid.guard _ rfl, meaning_leading closed fallThrough plan.targets.continueTo]
    apply head.enter_mono falls
    calc meaning meant (Exits.within { leading shows fallThrough with falls := ahead }
            (head.again meant ahead round)) body
        ≤ meaning meant (Exits.within { leading shows fallThrough with falls := behind }
            (shows plan.targets.continueTo)) body := (under.within (goesOn rounds)).meaning_le body
      _ = meaning meant (leading shows plan.targets.continueTo) redirected :=
        unchanged.meaning.symm
      _ ≤ meaning meant (leading shows plan.targets.continueTo) flat := refines.whole rfl
  have whole : (dueOf afterInit loop).meaning meant
      { leading shows fallThrough with falls := ahead } ≤ shows loopName := by
    rw [meaning_dueOf_loop isLoop ready]
    exact least_le ((rounds le_rfl).trans top)
  constructor
  · rw [← meaning_dueOf_round isLoop ready]
    exact rounds whole
  · rw [entries_dueOf_loop isLoop ready]
    apply (under.within (goesOn whole)).entries_le
    rw [← unchanged.entries]
    exact refines.labels

/-- The promised blocks show what is behind the loop, and where a round of it goes on. -/
theorem Laid.below (laid : Laid meant shows head loopName ahead plan behind)
    (below : ∀ promise ∈ plan.promises, promise.block.Below meant shows) : ahead ≤ behind ∧
      head.again meant behind (shows loopName) ≤ shows plan.targets.continueTo := by
  constructor
  · rcases laid.falls with same | ⟨promise, member, means, same⟩
    · exact same.ge
    · rw [← means, ← same]
      exact (below promise member).whole
  · rcases laid.continues with same | ⟨promise, member, named, means⟩
    · exact same.ge
    · rw [← means, ← named]
      exact (below promise member).whole

/-- A block that is new in the later ledger has what all new blocks have. -/
theorem below_of_fresh {holds : Pending → Prop} {block : Pending}
    (sent : Sends holds ledger later) (new : block ∈ later.sent)
    (fresh : block.name ∉ ledger.names) : holds block :=
  (sent block new).resolve_left fun old => fresh (List.mem_map_of_mem old)

theorem below_of_send {holds : Pending → Prop} {block : Pending}
    (sends : ledger.send? block = some later)
    (sent : Sends holds ledger later) : holds block := by
  have new : block ∈ later.sent := (Ledger.mem_sent_of_send sends).2 (.inr rfl)
  exact below_of_fresh sent new (Ledger.send_inv sends).1

/-- The label after a branch shows what follows, and so do the labels in it. -/
theorem Chosen.below {after : Successor} {further settled : Ledger}
    (chosen : Chosen stem ledger fallThrough following.remaining after named)
    (whole : following.Whole)
    (settles : further.settle? after following fallThrough = some settled)
    (sent : Sends (Pending.Below meant shows) further settled)
    (leftover : ∀ entry ∈
      Script.entries meant (leading shows fallThrough) (after.leftover following).due,
      entry.2 ≤ shows entry.1) :
    Script.meaning meant (leading shows fallThrough) following.remaining ≤ shows after.name ∧
      ∀ entry ∈ Script.entries meant (leading shows fallThrough) following.remaining,
        entry.2 ≤ shows entry.1 := by
  have due := due_of_whole whole
  generalize remains : following.remaining = statements at chosen due ⊢
  cases chosen with
  | nothing => exact ⟨le_rfl, nofun⟩
  | @labeled label body others =>
    change ∀ entry ∈ Script.entries meant (leading shows fallThrough) following.due, _ at leftover
    rw [due] at leftover
    exact ⟨leftover _ (List.mem_cons_self ..), leftover⟩
  | plain own =>
    have below := below_of_send settles sent
    have first := below.whole
    have inside := below.labels
    rw [Pending.meaning, due] at first
    rw [Pending.entries, due] at inside
    exact ⟨first, inside⟩

/-- A statement that is copied stays in front of what is put into the block behind it. -/
theorem Refines.copied {reached : Bool} {statement : Stmt} {rest : List Stmt}
    (free : statement.containsLabels = false)
    (others : Refines meant shows exits statement.fallsThrough rest out) :
    Refines meant shows exits reached (statement :: rest) (statement :: out) := by
  refine ⟨fun _ => meaning_cons_le others.whole, ?_⟩
  show ∀ entry ∈ statement.entries meant _ ++ _, _
  rw [Stmt.entries_of_free free]
  exact others.labels

theorem Refines.spliced {reached : Bool} {rest : List Stmt}
    (refines : Refines meant shows exits reached (body ++ rest) out) :
    Refines meant shows exits reached (.block body :: rest) out := by
  refine ⟨fun control => (meaning_append meant _ body rest).ge.trans (refines.whole control), ?_⟩
  have labels := refines.labels
  rw [entries_append] at labels
  exact labels

/-- Both bodies of a branch go on with what the label after it shows. -/
theorem Refines.branched {reached : Bool} {test : Expr} {thenBody thenFlat elseFlat : List Stmt}
    {elseBody : Option (List Stmt)} {label : String} {rest : List Stmt}
    (inThen : Refines meant shows (leading shows label) true thenBody thenFlat)
    (inElse : Refines meant shows (leading shows label) true (elseBody.getD []) elseFlat)
    (thenClosed : fallsThrough thenFlat = false) (elseClosed : fallsThrough elseFlat = false)
    (falls : meaning meant (leading shows fallThrough) rest ≤ shows label)
    (others : ∀ entry ∈ entries meant (leading shows fallThrough) rest, entry.2 ≤ shows entry.1) :
    Refines meant shows (leading shows fallThrough) reached (.branch test thenBody elseBody :: rest)
      (flatBranch test thenFlat (elseBody.map fun _ => elseFlat) label ++ out) := by
  have under : Exits.Under { leading shows fallThrough with
      falls := meaning meant (leading shows fallThrough) rest } (leading shows label) :=
    ⟨falls, le_rfl, le_rfl, fun _ => le_rfl⟩
  constructor
  · intro _
    rw [meaning_flatBranch_append thenClosed elseClosed]
    refine (Stmt.meaning_branch meant _ test thenBody elseBody).le.trans ?_
    apply tested_mono ((under.meaning_le thenBody).trans (inThen.whole rfl))
    cases elseBody with
    | none => exact falls
    | some elseBody => exact (under.meaning_le elseBody).trans (inElse.whole rfl)
  · show ∀ entry ∈ Stmt.entries meant _ (Stmt.branch test thenBody elseBody) ++ _, _
    rw [Stmt.entries_branch, List.forall_mem_append, List.forall_mem_append]
    exact ⟨⟨under.entries_le inThen.labels, under.entries_le inElse.labels⟩, others⟩

/-- A loop that is moved is shown by the name of its block, behind what is left of its
initializer. -/
theorem Refines.moved {reached : Bool} {name : String} {isBound : String → Bool}
    (met : code.At frame rest current) (passed : Passed isBound current loop)
    (isLoop : loopOf loop = some (head, body)) (plainInit : head.labeledInit = none)
    (below : Pending.Below meant shows ⟨rest.push (head.resumption frame), name, fallThrough⟩) :
    Refines meant shows (leading shows fallThrough) reached
      (dueOf frame.afterInit loop :: (rest.pushFollowing frame).remaining)
      (head.pendingInit frame.afterInit ++ [.goto name]) := by
  have again := At.resumption met head
  have first := below.whole
  have inside := fun entry member => below.labels entry (passed.entries_subset again member)
  rw [Pending.meaning, passed.meaning_due again, pushFollowing_resumption] at first
  rw [pushFollowing_resumption] at inside
  constructor
  · intro _
    rw [meaning_append]
    exact (meaning_dueOf_init isLoop frame).le.trans
      (meaning_mono first fun _ _ => below_refl _ _)
  · show ∀ entry ∈ Stmt.entries meant _ (dueOf frame.afterInit loop) ++ _, _
    rw [entries_dueOf_init isLoop plainInit frame]
    exact inside

/-- What all new blocks have, the promised blocks of a loop have. -/
theorem promised_of_sent {holds : Pending → Prop} {flat : List Stmt}
    (planned : layout stem head body loopName following fallThrough ledger = (plan, named))
    (placed : Placed stem (named.inline loopName) code plan.targets.continueTo spot flat between)
    (kept : between.sendAll? (plan.promises.map Promise.block) = some later)
    (sent : Sends holds ledger later) :
    ∀ promise ∈ plan.promises, holds promise.block := by
  intro promise member
  have inPlan : promise.block ∈ plan.promises.map Promise.block := List.mem_map_of_mem member
  have new : promise.block ∈ later.sent := by
    rw [Ledger.sendAll_inv kept]
    exact List.mem_append_right _ inPlan
  refine below_of_fresh sent new fun old => Ledger.fresh_of_sendAll kept _ inPlan ?_
  apply placed.grows.names_subset
  show _ ∈ named.sent.map Pending.name
  rw [(layout_promising planned).sent]
  exact old

/-- Code shows no more than what is put into the block for it, and no more than its labels, when
that is so of the blocks that are scheduled on the way. -/
theorem Placed.refines (negates : meant.Negates)
    (placed : Placed stem ledger code fallThrough spot out later)
    (reached : ∀ statement ∈ code.remaining, AllReached statement)
    (top : ∀ name, spot.reentry = some name → spot.reached = true ∧
      meaning meant (leading shows fallThrough) out ≤ shows name)
    (sent : Sends (Pending.Below meant shows) ledger later) :
    Refines meant shows (leading shows fallThrough) spot.reached code.due out := by
  induction placed with
  | @ends ledger code fallThrough spot nothing =>
    obtain ⟨_ | ⟨frame, frames⟩⟩ := code
    · exact ⟨fun reached => (meaning_jump reached).ge, nofun⟩
    · cases nothing
  | opens met owned arrival sends =>
    have below := below_of_send sends sent
    exact ⟨fun reached => below.whole.trans (meaning_jump reached).ge, below.labels⟩
  | unwraps met owned arrival placed ih =>
    have passed := passed_of_unwraps arrival
    have all := carried_allReached.ahead reached met passed
    refine Refines.passed met owned passed top ?_
    rw [← due_push_single]
    apply ih _ top sent
    rw [Continuation.remaining_push]
    exact List.forall_mem_cons.2 all
  | copies met owned arrival free plain placed ih =>
    have passed := (runs_inv arrival).2
    have all := (carried_allReached.ahead reached met passed).2
    have others := ih all (by rintro _ ⟨⟩) sent
    rw [due_of_whole (Continuation.whole_pushFollowing owned.behind _)] at others
    refine Refines.passed met owned passed top ?_
    rw [owned.dueOf_free arrival free]
    exact others.copied free
  | splices met owned arrival labeled placed ih =>
    have passed := (runs_inv arrival).2
    obtain ⟨here, behind⟩ := carried_allReached.ahead reached met passed
    rw [due_push_block (Continuation.whole_pushFollowing owned.behind _),
      Continuation.remaining_push] at ih
    refine Refines.passed met owned passed top ?_
    rw [dueOf_of_resumed rfl]
    exact (ih (List.forall_mem_append.2 ⟨carried_allReached.block here, behind⟩) top sent).spliced
  | @branches ledger named between settled further later code rest frame current test thenBody
      elseBody fallThrough spot after thenFlat elseFlat out met owned arrival labeled chosen
      thenPlaced elsePlaced settles placed ihThen ihElse ih =>
    have passed := (runs_inv arrival).2
    obtain ⟨here, behind⟩ := carried_allReached.ahead reached met passed
    obtain ⟨thenReached, elseReached⟩ := carried_allReached.branch.1 here
    have whole := Continuation.whole_pushFollowing owned.behind frame
    have chosen := chosen_of_successor chosen
    have early := thenPlaced.grows.sent_subset
    rw [chosen.sent] at early
    have middle := elsePlaced.grows.sent_subset
    have late := sent_subset_of_settle settles
    have last := placed.grows.sent_subset
    rw [due_ofBlock, Continuation.remaining_ofBlock] at ihThen ihElse
    have inThen := ihThen thenReached (by rintro _ ⟨⟩) fun block member => by
      rw [chosen.sent]
      exact sent block (last (late (middle member)))
    have inElse := ihElse elseReached (by rintro _ ⟨⟩) fun block member =>
      (sent block (last (late member))).imp_left fun old => early old
    have leftover := ih
      (fun statement left => behind statement (remaining_leftover_subset _ _ left)) (by rintro _ ⟨⟩)
      fun block member => (sent block member).imp_left fun old => late (middle (early old))
    obtain ⟨falls, others⟩ := chosen.below whole settles
      (fun block member => (sent block (last member)).imp_left fun old => middle (early old))
      leftover.labels
    refine Refines.passed met owned passed top ?_
    rw [dueOf_of_resumed rfl]
    exact inThen.branched inElse (thenPlaced.closed rfl) (elsePlaced.closed rfl) falls others
  | @inlines ledger named between later code rest frame current loop head body inner flat loopName
      fallThrough spot plan met owned arrival labeled isLoop plainInit start ready planned redirects
      placed kept ih =>
    have passed := (runs_inv arrival).2
    obtain ⟨here, behind⟩ := carried_allReached.ahead reached met passed
    have whole := Continuation.whole_pushFollowing owned.behind frame
    have nowhere := layout_breakTo planned
    have late : between.sent ⊆ later.sent := by
      rw [Ledger.sendAll_inv kept]
      exact List.subset_append_left _ _
    rw [due_ofBlock, Continuation.remaining_ofBlock] at ih
    have inBody := ih
      (carried_allReached.loop here labeled isLoop redirects nowhere (fun _ _ => trivial) trivial)
      (by rintro _ ⟨⟩) fun block member => by
        show block ∈ named.sent ∨ _
        rw [(layout_promising planned).sent]
        exact sent block (late member)
    have below := promised_of_sent planned placed kept sent
    obtain ⟨after, laid⟩ : ∃ after, Laid meant shows head loopName _ plan after :=
      layout_laid negates whole planned
    obtain ⟨falls, continues⟩ := laid.below below
    have reachedBody := here loop (Stmt.mem_nodes_self loop) head body labeled isLoop
    have unchanged := laid.sameMeaning redirects reachedBody nowhere fallThrough
    obtain ⟨first, inside⟩ := laid.refines isLoop ready unchanged falls continues
      (top loopName start).2 (placed.closed rfl) inBody
    refine Refines.passed met owned passed top ⟨fun _ => first, ?_⟩
    show ∀ entry ∈ Stmt.entries meant _ (dueOf frame.afterInit loop) ++ _, _
    rw [List.forall_mem_append, ← layout_entries whole planned]
    refine ⟨inside, fun entry member => ?_⟩
    obtain ⟨promise, inPlan, member⟩ := List.mem_flatMap.1 member
    exact (below promise inPlan).labels entry member
  | splits met owned arrival labeled isLoop plainInit unready sends =>
    have passed := (runs_inv arrival).2
    have below := below_of_send sends sent
    exact Refines.passed met owned passed top (.moved met passed isLoop plainInit below)

end Below

end Unnest.Flatten
