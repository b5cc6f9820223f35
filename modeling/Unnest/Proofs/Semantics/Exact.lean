import Unnest.Proofs.Semantics.Below

/-! Blocks show what the code does that they are made from. When the labels show what the code
shows from them, and the made-up names what their blocks mean, the statements of a block mean
what its code does, and so it goes on with the blocks that are scheduled on the way. -/

namespace Unnest.Flatten
open Script

universe u

variable {σ : Type u} {meant : Interpretation σ} {shows : String → Sights σ} {exits : Exits σ}

/-- The name of the block shows what the block means, and the labels in it show what the code
does. -/
structure Pending.Exact (meant : Interpretation σ) (shows : String → Sights σ) (block : Pending) :
    Prop where
  whole : shows block.name = block.meaning meant shows
  labels : ∀ entry ∈ block.entries meant shows, shows entry.1 = entry.2

/-- The block has a made-up name, which shows what the block means. -/
def Pending.Solved (stem : String) (meant : Interpretation σ) (shows : String → Sights σ)
    (block : Pending) : Prop :=
  ∀ index, block.name = Mint.nameAt stem index → shows block.name = block.meaning meant shows

section Exact

variable {stem fallThrough loopName : String} {ledger named between later : Ledger}
  {code rest following : Continuation Stmt} {frame : Frame Stmt} {current inner loop : Stmt}
  {head : LoopHead} {body : List Stmt} {plan : LoopPlan} {spot : Spot} {out : List Stmt}
  {ahead behind : Sights σ}

/-- The promised blocks show what is behind the loop, and where a round of it goes on. -/
theorem Laid.exact (laid : Laid meant shows head loopName ahead plan behind)
    (solved : ∀ promise ∈ plan.promises,
      shows promise.block.name = promise.block.meaning meant shows) : behind = ahead ∧
      shows plan.targets.continueTo = head.again meant behind (shows loopName) := by
  constructor
  · rcases laid.falls with same | ⟨promise, member, means, same⟩
    · exact same
    · rw [← same, ← means]
      exact solved promise member
  · rcases laid.continues with same | ⟨promise, member, named, means⟩
    · exact same
    · rw [← means, ← named]
      exact solved promise member

/-- The promised blocks are exact when the code behind the loop is and made-up names are solved. -/
theorem layout_exact (whole : following.Whole)
    (planned : layout stem head body loopName following fallThrough ledger = (plan, named))
    (exact : ∀ entry ∈ entries meant (leading shows fallThrough) following.remaining,
      shows entry.1 = entry.2)
    (solved : ∀ promise ∈ plan.promises, promise.block.Solved stem meant shows) :
    ∀ promise ∈ plan.promises, promise.block.Exact meant shows := by
  have promising := layout_promising planned
  intro promise member
  have inside : ∀ entry ∈ promise.block.entries meant shows, shows entry.1 = entry.2 := by
    intro entry below
    apply exact
    rw [← layout_entries whole planned]
    exact List.mem_flatMap.2 ⟨promise, member, below⟩
  refine ⟨?_, inside⟩
  have plain := (promising.plain whole promise member).whole
  cases promising.promised promise member with
  | madeUp name =>
    obtain ⟨index, _, _, name⟩ := name
    exact solved _ member index name
  | @labeled block body others same ahead =>
    apply inside (block.name, block.meaning meant shows)
    rw [Pending.entries, Pending.meaning, due_of_whole plain, same, ahead]
    exact List.mem_cons_self ..

/-- A label that is new shows the code that it stands in front of. -/
theorem Owned.mem_entries {label : String} (owned : Owned ledger spot frame rest current)
    (met : code.At frame rest current) (arrival : arrive ledger.isBound current = .opens label) :
    (label, meaning meant exits code.due) ∈ entries meant exits code.due := by
  obtain ⟨unbound, inner, rfl⟩ := opens_inv arrival
  have start : frame.afterInit = false := by
    cases after : frame.afterInit with
    | false => rfl
    | true =>
      obtain ⟨loop, passed, own, _⟩ := owned.resumed after
      cases passed with
      | plain => cases own
      | below bound =>
        rw [bound] at unbound
        cases unbound
  rw [due_of_at met, start]
  exact List.mem_cons_self ..

/-- A loop that is moved has no labels but those of the code. -/
theorem Passed.entries_resumption {isBound : String → Bool} (passed : Passed isBound current loop)
    (met : code.At frame rest current) (isLoop : loopOf loop = some (head, body))
    (plainInit : head.labeledInit = none) :
    entries meant exits (rest.push (head.resumption frame)).due ⊆ entries meant exits code.due := by
  have again := At.resumption met head
  cases head with
  | whileHead | doHead => rw [due_of_at again, due_of_at met]; exact List.Subset.refl _
  | forHead init condition iterator =>
    refine List.Subset.trans ?_ (passed.entries_subset met)
    rw [due_of_at again]
    have same {exits : Exits σ} :
        (dueOf true current).entries meant exits = (dueOf true loop).entries meant exits := by
      rcases passed.entries_dueOf true with same | ⟨label, start, _⟩
      · exact same
      · cases start
    show Stmt.entries meant _ (dueOf true current) ++ _ ⊆ Stmt.entries meant _ _ ++ _
    rw [same, entries_dueOf_init isLoop plainInit frame]
    exact List.Subset.refl _

/-- A block with a made-up name is solved when it is scheduled. -/
theorem shown_of_send {block : Pending} {index : Nat} (sends : ledger.send? block = some later)
    (solved : ∀ block ∈ later.sent, block.Solved stem meant shows)
    (name : block.name = Mint.nameAt stem index) :
    shows block.name = block.meaning meant shows :=
  solved block ((Ledger.mem_sent_of_send sends).2 (.inr rfl)) index name

/-- What follows a branch is shown by the label after it, and is exact where it is scheduled. -/
theorem Chosen.exact {after : Successor} {further settled : Ledger}
    (chosen : Chosen stem ledger fallThrough following.remaining after named)
    (whole : following.Whole)
    (settles : further.settle? after following fallThrough = some settled)
    (exact : ∀ entry ∈ Script.entries meant (leading shows fallThrough) following.remaining,
      shows entry.1 = entry.2)
    (solved : ∀ block ∈ settled.sent, block.Solved stem meant shows) :
    shows after.name = Script.meaning meant (leading shows fallThrough) following.remaining ∧
      Sends (Pending.Exact meant shows) further settled ∧
        ∀ entry ∈ Script.entries meant (leading shows fallThrough) (after.leftover following).due,
          shows entry.1 = entry.2 := by
  have due := due_of_whole whole
  generalize remains : following.remaining = statements at chosen due exact ⊢
  cases chosen with
  | nothing =>
    cases settles
    refine ⟨rfl, .none rfl, ?_⟩
    show ∀ entry ∈ Script.entries meant (leading shows fallThrough) following.due, _
    rw [due]
    exact exact
  | @labeled label body others =>
    cases settles
    refine ⟨exact _ (List.mem_cons_self ..), .none rfl, ?_⟩
    show ∀ entry ∈ Script.entries meant (leading shows fallThrough) following.due, _
    rw [due]
    exact exact
  | plain own =>
    have shown := shown_of_send settles solved rfl
    have means := shown
    rw [Pending.meaning, due] at means
    refine ⟨means, .ofSend settles ⟨shown, ?_⟩, List.forall_mem_nil _⟩
    rw [Pending.entries, due]
    exact exact

theorem meaning_copied {statement : Stmt} {rest : List Stmt}
    (others : statement.fallsThrough = true → meaning meant exits out = meaning meant exits rest) :
    meaning meant exits (statement :: out) = meaning meant exits (statement :: rest) :=
  (meaning_cons_le fun falls => (others falls).le).antisymm
    (meaning_cons_le fun falls => (others falls).ge)

/-- Where control goes on behind code with what a label shows, it may as well go to the label. -/
theorem leading_of_shown {label : String} {rest : List Stmt}
    (falls : shows label = meaning meant (leading shows fallThrough) rest) :
    { leading shows fallThrough with falls := meaning meant (leading shows fallThrough) rest } =
      leading shows label := by
  rw [← falls]
  rfl

/-- Both bodies of a branch go on with what the label after it shows. -/
theorem meaning_branched {test : Expr} {thenBody thenFlat elseFlat : List Stmt}
    {elseBody : Option (List Stmt)} {label : String} {rest : List Stmt}
    (inThen : meaning meant (leading shows label) thenFlat =
      meaning meant (leading shows label) thenBody)
    (inElse : meaning meant (leading shows label) elseFlat =
      meaning meant (leading shows label) (elseBody.getD []))
    (thenClosed : fallsThrough thenFlat = false) (elseClosed : fallsThrough elseFlat = false)
    (falls : shows label = meaning meant (leading shows fallThrough) rest) :
    meaning meant (leading shows fallThrough)
        (flatBranch test thenFlat (elseBody.map fun _ => elseFlat) label ++ out) =
      meaning meant (leading shows fallThrough) (.branch test thenBody elseBody :: rest) := by
  have whole : meaning meant (leading shows fallThrough) (.branch test thenBody elseBody :: rest) =
      tested meant test (meaning meant (leading shows label) thenBody)
        (meaning meant (leading shows label) (elseBody.getD [])) := by
    rw [← leading_of_shown falls]
    exact Stmt.meaning_branch ..
  rw [whole, meaning_flatBranch_append thenClosed elseClosed, inThen, inElse]
  cases elseBody <;> rfl

/-- A round of a loop in its block is a round of the loop. -/
theorem Laid.meaning_inlined {redirected flat : List Stmt} {afterInit : Bool}
    (laid : Laid meant shows head loopName ahead plan behind)
    (isLoop : loopOf loop = some (head, body)) (ready : head.pendingInit afterInit = [])
    (unchanged : SameMeaning meant redirected body (leading shows plan.targets.continueTo)
      (Exits.within { leading shows fallThrough with falls := behind }
        (head.again meant behind ((dueOf afterInit loop).meaning meant
          { leading shows fallThrough with falls := behind }))))
    (closed : fallsThrough flat = false)
    (inBody : meaning meant (leading shows plan.targets.continueTo) flat =
      meaning meant (leading shows plan.targets.continueTo) redirected) :
    meaning meant (leading shows fallThrough) (plan.guard ++ flat) =
      (dueOf afterInit loop).meaning meant { leading shows fallThrough with falls := behind } := by
  have turn : meaning meant (leading shows fallThrough) flat =
      meaning meant (Exits.within { leading shows fallThrough with falls := behind }
        (head.again meant behind ((dueOf afterInit loop).meaning meant
          { leading shows fallThrough with falls := behind }))) body :=
    calc meaning meant (leading shows fallThrough) flat
        = meaning meant (leading shows plan.targets.continueTo) flat := meaning_leading closed _ _
      _ = meaning meant (leading shows plan.targets.continueTo) redirected := inBody
      _ = _ := unchanged.meaning
  rw [laid.guard _ rfl, turn]
  exact meaning_dueOf_round isLoop ready

/-- A loop that is moved is shown by the name of its block, behind what is left of its
initializer. -/
theorem Passed.meaning_moved {name : String} {isBound : String → Bool}
    (passed : Passed isBound current loop) (met : code.At frame rest current)
    (isLoop : loopOf loop = some (head, body))
    (shown : shows name =
      Pending.meaning meant shows ⟨rest.push (head.resumption frame), name, fallThrough⟩) :
    meaning meant (leading shows fallThrough)
        (head.pendingInit frame.afterInit ++ [.goto name]) =
      meaning meant (leading shows fallThrough) code.due := by
  rw [Pending.meaning, passed.meaning_due (At.resumption met head),
    pushFollowing_resumption] at shown
  let init := head.pendingInit frame.afterInit
  let onto (behind : Sights σ) : Sights σ :=
    meaning meant { leading shows fallThrough with falls := behind } init
  calc meaning meant (leading shows fallThrough) (init ++ [.goto name])
      = onto (shows name) := meaning_append ..
    _ = _ := congrArg onto shown
    _ = meaning meant (leading shows fallThrough) (dueOf frame.afterInit loop ::
          (rest.pushFollowing frame).remaining) := (meaning_dueOf_init isLoop frame).symm
    _ = meaning meant (leading shows fallThrough) code.due := (passed.meaning_due met).symm

/-- What is put into a block means what the code does, and the blocks that are scheduled on the way
are exact, when the labels in the code and the made-up names are. -/
theorem Placed.exact (negates : meant.Negates)
    (placed : Placed stem ledger code fallThrough spot out later)
    (reached : ∀ statement ∈ code.remaining, AllReached statement)
    (exact : ∀ entry ∈ entries meant (leading shows fallThrough) code.due, shows entry.1 = entry.2)
    (top : ∀ name, spot.reentry = some name →
      shows name = meaning meant (leading shows fallThrough) code.due)
    (solved : ∀ block ∈ later.sent, block.Solved stem meant shows) :
    (spot.reached = true → meaning meant (leading shows fallThrough) out =
        meaning meant (leading shows fallThrough) code.due) ∧
      Sends (Pending.Exact meant shows) ledger later := by
  induction placed with
  | @ends ledger code fallThrough spot nothing =>
    obtain ⟨_ | ⟨frame, frames⟩⟩ := code
    · exact ⟨fun reached => meaning_jump reached, .none rfl⟩
    · cases nothing
  | opens met owned arrival sends =>
    have shown := exact _ (owned.mem_entries met arrival)
    exact ⟨fun reached => (meaning_jump reached).trans shown, .ofSend sends ⟨shown, exact⟩⟩
  | unwraps met owned arrival placed ih =>
    have passed := passed_of_unwraps arrival
    have all := carried_allReached.ahead reached met passed
    rw [due_push_single, Continuation.remaining_push] at ih
    rw [passed.meaning_due met] at top ⊢
    exact ih (List.forall_mem_cons.2 all)
      (fun entry member => exact entry (passed.entries_subset met member)) top solved
  | copies met owned arrival free plain placed ih =>
    have passed := (runs_inv arrival).2
    have behind := (carried_allReached.ahead reached met passed).2
    rw [due_of_whole (Continuation.whole_pushFollowing owned.behind _)] at ih
    obtain ⟨others, later⟩ := ih behind
      (fun entry member => exact entry (passed.entries_subset met (List.mem_append_right _ member)))
      (by rintro _ ⟨⟩) solved
    rw [passed.meaning_due met, owned.dueOf_free arrival free]
    exact ⟨fun _ => meaning_copied others, later⟩
  | @splices ledger later code rest frame current body fallThrough spot out met owned arrival
      labeled placed ih =>
    have passed := (runs_inv arrival).2
    obtain ⟨here, behind⟩ := carried_allReached.ahead reached met passed
    have inside := fun entry member => exact entry (passed.entries_subset met member)
    have means : meaning meant (leading shows fallThrough)
        (body ++ (rest.pushFollowing frame).remaining) =
      meaning meant (leading shows fallThrough)
        (.block body :: (rest.pushFollowing frame).remaining) := meaning_append ..
    rw [due_push_block (Continuation.whole_pushFollowing owned.behind _),
      Continuation.remaining_push, means, entries_append] at ih
    rw [passed.meaning_due met] at top ⊢
    rw [dueOf_of_resumed rfl] at top inside ⊢
    exact ih (List.forall_mem_append.2 ⟨carried_allReached.block here, behind⟩) inside top solved
  | @branches ledger named between settled further later code rest frame current test thenBody
      elseBody fallThrough spot after thenFlat elseFlat out met owned arrival labeled chosen
      thenPlaced elsePlaced settles placed ihThen ihElse ih =>
    have passed := (runs_inv arrival).2
    obtain ⟨here, behind⟩ := carried_allReached.ahead reached met passed
    obtain ⟨thenReached, elseReached⟩ := carried_allReached.branch.1 here
    have whole := Continuation.whole_pushFollowing owned.behind frame
    have chosen := chosen_of_successor chosen
    have middle := elsePlaced.grows.sent_subset
    have late := sent_subset_of_settle settles
    have last := placed.grows.sent_subset
    have inside := fun entry member => exact entry (passed.entries_subset met member)
    rw [dueOf_of_resumed rfl] at inside
    obtain ⟨falls, scheduled, leftover⟩ := chosen.exact whole settles
      (fun entry member => inside entry (List.mem_append_right _ member))
      fun block member => solved block (last member)
    have parts : ∀ entry ∈ entries meant (leading shows after.name) thenBody ++
        entries meant (leading shows after.name) (elseBody.getD []), shows entry.1 = entry.2 := by
      intro entry member
      rw [← leading_of_shown falls, ← Stmt.entries_branch] at member
      exact inside entry (List.mem_append_left _ member)
    rw [List.forall_mem_append] at parts
    rw [due_ofBlock, Continuation.remaining_ofBlock] at ihThen ihElse
    obtain ⟨inThen, thenExact⟩ := ihThen thenReached parts.1 (by rintro _ ⟨⟩)
      fun block member => solved block (last (late (middle member)))
    obtain ⟨inElse, elseExact⟩ := ihElse elseReached parts.2 (by rintro _ ⟨⟩)
      fun block member => solved block (last (late member))
    obtain ⟨_, restExact⟩ := ih
      (fun statement left => behind statement (remaining_leftover_subset _ _ left)) leftover
      (by rintro _ ⟨⟩) solved
    constructor
    · intro _
      rw [passed.meaning_due met, dueOf_of_resumed rfl]
      exact meaning_branched (inThen rfl) (inElse rfl) (thenPlaced.closed rfl)
        (elsePlaced.closed rfl) falls
    · exact ((thenExact.trans elseExact).trans (.trans scheduled restExact)).since chosen.sent
  | @inlines ledger named between later code rest frame current loop head body inner flat loopName
      fallThrough spot plan met owned arrival labeled isLoop plainInit start ready planned redirects
      placed kept ih =>
    have passed := (runs_inv arrival).2
    obtain ⟨here, behind⟩ := carried_allReached.ahead reached met passed
    have whole := Continuation.whole_pushFollowing owned.behind frame
    have nowhere := layout_breakTo planned
    have inside := fun entry member => exact entry (passed.entries_subset met member)
    have sent := Ledger.sendAll_inv kept
    have late : between.sent ⊆ later.sent := by
      rw [sent]
      exact List.subset_append_left _ _
    have promised := layout_exact whole planned
      (fun entry member => inside entry (List.mem_append_right _ member))
      fun promise member => solved promise.block (by
        rw [sent]
        exact List.mem_append_right _ (List.mem_map_of_mem member))
    obtain ⟨after, laid⟩ : ∃ after, Laid meant shows head loopName _ plan after :=
      layout_laid negates whole planned
    obtain ⟨same, continues⟩ := laid.exact fun promise member => (promised promise member).whole
    subst same
    have shown := top loopName start
    rw [passed.meaning_due met] at shown ⊢
    have unchanged := laid.sameMeaning redirects
      (here loop (Stmt.mem_nodes_self loop) head body labeled isLoop) nowhere fallThrough
    rw [continues, shown] at unchanged
    have labels := unchanged.entries.trans (entries_dueOf_loop isLoop ready).symm
    rw [due_ofBlock, Continuation.remaining_ofBlock, labels] at ih
    obtain ⟨inBody, bodyExact⟩ := ih
      (carried_allReached.loop here labeled isLoop redirects nowhere (fun _ _ => trivial) trivial)
      (fun entry member => inside entry (List.mem_append_left _ member)) (by rintro _ ⟨⟩)
      fun block member => solved block (late member)
    refine ⟨fun _ => laid.meaning_inlined isLoop ready unchanged (placed.closed rfl) (inBody rfl), ?_⟩
    have scheduled := Sends.ofSendAll kept (List.forall_mem_map.2 promised)
    exact (bodyExact.trans scheduled).since (layout_promising planned).sent
  | splits met owned arrival labeled isLoop plainInit unready sends =>
    have passed := (runs_inv arrival).2
    have shown := shown_of_send sends solved rfl
    have exact : Pending.Exact meant shows _ := ⟨shown, fun entry member =>
      exact entry (passed.entries_resumption met isLoop plainInit member)⟩
    exact ⟨fun _ => passed.meaning_moved met isLoop shown, (Sends.ofSend sends exact).since rfl⟩

end Exact

end Unnest.Flatten
