import Unnest.Proofs.Flatten.Calls
import Unnest.Proofs.Flatten.Failures
import Unnest.Proofs.Flatten.Moved

/-! Where labels are met that have been bound already. Such a label is the merge point at the start
of a block: the block that has its name, or the one to which the `for` loop under it was moved. So
what stands behind a construct is never dropped: it is queued as a block of its own. -/

namespace Unnest.Flatten
open Script

/-- The statement is a `for` loop, itself or below its label. -/
def standsAtFor (statement : Stmt) : Prop :=
  ∃ loop, loop.kind = .forLoop ∧ (statement = loop ∨ ∃ label, statement = .labeled label loop)

/-- Only a `for` loop is resumed behind its initializer. -/
def Continuation.ResumesFor (code : Continuation Stmt) : Prop :=
  ∀ frame rest current, code.At frame rest current → frame.afterInit = true → standsAtFor current

/-- A block that resumes a loop is one that a `for` loop has been moved to. -/
structure Pending.Resumes (moved : List String) (block : Pending) : Prop where
  atFor : block.continuation.ResumesFor
  moved : ∀ {frame rest current}, block.continuation.At frame rest current →
    frame.afterInit = true → block.name ∈ moved

section Resumes

variable {stem fallThrough : String} {ledger later : Ledger} {code : Continuation Stmt}
  {spot : Spot} {out : List Stmt} {moved also : List String} {block : Pending}

theorem Pending.Resumes.mono (more : moved ⊆ also) (resumes : block.Resumes moved) :
    block.Resumes also where
  atFor := resumes.atFor
  moved met resumed := more (resumes.moved met resumed)

theorem Continuation.whole_of_at {frame : Frame Stmt} {rest : Continuation Stmt} {current : Stmt}
    (met : code.At frame rest current) (whole : rest.Whole) (plain : frame.afterInit = false) :
    code.Whole :=
  met.push_back ▸ Continuation.whole_push whole plain

theorem Continuation.Whole.not_resumed (whole : code.Whole) {frame : Frame Stmt}
    {rest : Continuation Stmt} {current : Stmt} (met : code.At frame rest current) :
    frame.afterInit ≠ true := by
  rw [whole frame (met.frames ▸ List.mem_cons_self ..)]
  exact Bool.false_ne_true

theorem Continuation.Whole.resumesFor (whole : code.Whole) : code.ResumesFor :=
  fun _ _ _ met resumed => absurd resumed (whole.not_resumed met)

theorem Pending.resumes_of_whole (whole : block.continuation.Whole) : block.Resumes moved where
  atFor := whole.resumesFor
  moved met resumed := absurd resumed (whole.not_resumed met)

theorem whole_leftover {after : Successor} (whole : code.Whole) : (after.leftover code).Whole := by
  cases after with
  | fresh name => exact List.forall_mem_nil _
  | next | fallThrough => exact whole

theorem moved_of_settle {after : Successor}
    (settles : ledger.settle? after code fallThrough = some later) : later.moved = ledger.moved := by
  cases after with
  | fresh name => rw [(Ledger.send_inv settles).2]
  | next | fallThrough =>
    cases settles
    rfl

theorem Placed.moved_subset (placed : Placed stem ledger code fallThrough spot out later) :
    ledger.moved ⊆ later.moved := by
  obtain ⟨_, _, _, _, moved, _⟩ := placed.taken
  rw [moved]
  exact List.subset_append_left _ _

theorem standsAtFor_of_resumption {isBound : String → Bool} {current loop : Stmt} {head : LoopHead}
    {body : List Stmt} {frame : Frame Stmt} (passed : Passed isBound current loop)
    (isLoop : loopOf loop = some (head, body)) (before : frame.afterInit = true → standsAtFor current)
    (resumed : (head.resumption frame).afterInit = true) : standsAtFor current := by
  cases head with
  | whileHead | doHead => exact before resumed
  | forHead init condition iterator =>
    have kind : loop.kind = .forLoop := by
      cases loop <;> cases isLoop
      rfl
    cases passed with
    | plain own => exact ⟨_, kind, .inl rfl⟩
    | below bound => exact ⟨_, kind, .inr ⟨_, rfl⟩⟩

/-- A block that is scheduled while code is placed resumes a loop only if that loop has been moved
there. -/
theorem Placed.resumes (placed : Placed stem ledger code fallThrough spot out later)
    (resuming : code.ResumesFor) : Sends (Pending.Resumes later.moved) ledger later := by
  induction placed with
  | ends nothing => exact Sends.none rfl
  | opens met owned arrival sent =>
    have whole := Continuation.whole_of_at met owned.behind (owned.plain_of_opens arrival)
    exact Sends.ofSend sent (Pending.resumes_of_whole whole)
  | unwraps met owned arrival placed ih =>
    refine ih (Continuation.Whole.resumesFor ?_)
    exact Continuation.whole_push (Continuation.whole_pushFollowing owned.behind _)
      (owned.plain_of_unwraps arrival)
  | copies met owned arrival free plain placed ih =>
    exact ih (Continuation.whole_pushFollowing owned.behind _).resumesFor
  | splices met owned arrival labeled placed ih =>
    exact ih (Continuation.whole_push (Continuation.whole_pushFollowing owned.behind _) rfl).resumesFor
  | @branches ledger named between settled further later code rest frame current test thenBody
      elseBody fallThrough spot after _ _ _ met owned arrival labeled chosen thenPlaced elsePlaced
      settles placed ihThen ihElse ih =>
    have chosen := chosen_of_successor chosen
    have whole := Continuation.whole_pushFollowing owned.behind frame
    have behind := placed.moved_subset
    rw [moved_of_settle settles] at behind
    have inElse := List.Subset.trans elsePlaced.moved_subset behind
    have first := (ihThen (Continuation.whole_ofBlock _).resumesFor).imp fun _ resumes =>
      resumes.mono inElse
    have second := (ihElse (Continuation.whole_ofBlock _).resumesFor).imp fun _ resumes =>
      resumes.mono behind
    have settling := (Sends.settle settles fun _ _ => Pending.resumes_of_whole whole).trans
      (ih (whole_leftover whole).resumesFor)
    exact ((first.trans second).trans settling).since chosen.sent
  | @inlines ledger named between later code rest frame current loop head body inner flat loopName
      fallThrough spot plan met owned arrival labeled isLoop plainInit start ready planned redirects
      placed kept ih =>
    have promising := layout_promising planned
    have whole := Continuation.whole_pushFollowing owned.behind frame
    have same : later.moved = between.moved := by rw [Ledger.sendAll_inv kept]
    have inBody := ih (Continuation.whole_ofBlock _).resumesFor
    rw [same]
    apply (inBody.trans (.ofSendAll kept _)).since promising.sent
    rw [List.forall_mem_map]
    exact fun promise inPlan => Pending.resumes_of_whole (promising.plain whole promise inPlan).whole
  | @splits ledger later code rest frame current loop head body fallThrough spot met owned arrival
      labeled isLoop plainInit unready sent =>
    have again := At.resumption met head
    refine (Sends.ofSend sent ⟨fun _ _ _ also resumed => ?_, fun _ _ => ?_⟩).since rfl
    · obtain ⟨rfl, _, rfl⟩ := again.unique also
      exact standsAtFor_of_resumption (runs_inv arrival).2 isLoop (resuming _ _ _ met) resumed
    · rw [(Ledger.send_inv sent).2]
      exact List.mem_append_right _ (List.mem_singleton_self _)

end Resumes

/-- The step succeeds with the value, and the block is last in the queue. -/
def Queues {α : Type} (step : RunM α) (run : Run) (value : α) (block : Pending) : Prop :=
  ∃ later, step run = .ok value later ∧ later.schedule.queue = run.schedule.queue ++ [block]

section Queues

variable {run : Run}

theorem Queues.map {α β : Type} {step : RunM α} {value : α} {block : Pending}
    (queues : Queues step run value block) (give : α → β) :
    Queues (do return give (← step)) run (give value) block := by
  obtain ⟨later, success, queue⟩ := queues
  exact ⟨later, RunM.bind_of_ok success, queue⟩

theorem queues_enqueue {block : Pending} (free : run.isBound block.name = false)
    (ready : block.Ready) : Queues (enqueue block) run () block := by
  have bound : run.schedule.registry.isBound block.name = false := free
  have success : ∃ later, enqueue block run = .ok () later := by
    simp only [enqueue, Schedule.enqueue, Registry.bind?, bound, ready.more]
    exact ⟨_, rfl⟩
  obtain ⟨later, success⟩ := success
  exact ⟨later, success, queue_of_enqueue ready.more success⟩

theorem queues_keep {promise : Promise} (free : run.isBound promise.block.name = false)
    (ready : promise.block.Ready) : Queues (keep promise) run () promise.block := by
  have kept : keep promise run = enqueue promise.block run := by
    rw [keep, get_bind_apply, free, Bool.and_false]
    rfl
  obtain ⟨later, success, queue⟩ := queues_enqueue free ready
  exact ⟨later, kept.trans success, queue⟩

/-- Code that starts with a label opens a block of its own, unless the label has been bound. -/
theorem queues_place {code rest : Continuation Stmt} {frame : Frame Stmt} {label : String}
    {inner : Stmt} (met : code.At frame rest (.labeled label inner)) (inside : code.Inside)
    (free : run.isBound label = false) (fallThrough : String) (spot : Spot) :
    Queues (place code fallThrough spot) run (spot.jump label) ⟨code, label, fallThrough⟩ := by
  have arrival : arrive run.isBound (.labeled label inner) = .opens label := by
    cases inner <;> simp [arrive, free]
  let task : Pending := ⟨code, label, fallThrough⟩
  let noted : Run := run.note (.event (.labelStartsBlock label))
  have queued : Queues (enqueue task) noted () task :=
    queues_enqueue free ⟨inside, Continuation.isEmpty_of_at met⟩
  obtain ⟨later, success, queue⟩ := queued.map fun _ => spot.jump label
  refine ⟨later, ?_, queue⟩
  rw [place_of_at met, get_bind_apply]
  simp only [arrival, met.push_back]
  exact (RunM.bind_of_ok (reportEvent_apply _ run)).trans success

section Behind

variable {following : Continuation Stmt} {label : String} {placed : List Stmt}
  (unbound : run.isBound label = false) (inside : following.Inside)
include unbound inside

theorem queues_behind_fresh (more : following.remaining ≠ []) (fallThrough : String) :
    Queues (placeBehind place (.fresh label) placed following fallThrough) run placed
      ⟨following, label, fallThrough⟩ := by
  let task : Pending := ⟨following, label, fallThrough⟩
  have queued : Queues (enqueue task) run () task :=
    queues_enqueue unbound ⟨inside, (Continuation.isEmpty_eq_false_iff inside).2 more⟩
  exact queued.map fun _ => placed

/-- Control does not reach the end of the branch, so nothing is put behind it. -/
theorem queues_behind_next {body : Stmt} {others : List Stmt}
    (remains : following.remaining = .labeled label body :: others)
    (closed : fallsThrough placed = false) (fallThrough : String) :
    Queues (placeBehind place (.next label) placed following fallThrough) run placed
      ⟨following, label, fallThrough⟩ := by
  obtain ⟨frame, rest, met, _⟩ := inside.at_of_remaining remains
  have queued := (queues_place met inside unbound fallThrough (.after placed)).map (placed ++ ·)
  have stays : placed ++ (Spot.after placed).jump label = placed := by
    rw [Spot.jump, Spot.after, closed, if_neg Bool.false_ne_true, List.append_nil]
  rwa [stays] at queued

end Behind

variable {stem : String} {done : Nat} {ledger : Ledger} {call : Call} {frame : Frame Stmt}
  {rest : Continuation Stmt} {after : Successor} {placed : List Stmt} {now : Run}

/-- What stands behind a branch is queued under the label after it. -/
theorem Call.Sound.queues_behind (sound : call.Sound stem done ledger)
    (settles : call.Settles frame rest after placed now) :
    (∃ name, after = .fallThrough name) ∧ (rest.pushFollowing frame).remaining = [] ∨
      now.isBound after.name = false ∧
        Queues (placeBehind place after placed (rest.pushFollowing frame) call.fallThrough) now
          placed ⟨rest.pushFollowing frame, after.name, call.fallThrough⟩ := by
  obtain ⟨named, later, chosen, closed, behind, _, free, tracks⟩ := sound.settled settles
  have inside : (rest.pushFollowing frame).Inside := by
    obtain ⟨⟨⟨current, met, _⟩, _, _⟩, _, _⟩ := settles
    exact (sound.following met).1
  generalize remains : (rest.pushFollowing frame).remaining = following at chosen behind
  cases chosen with
  | nothing => exact .inl ⟨⟨_, rfl⟩, rfl⟩
  | @labeled label =>
    have unbound : now.isBound label = false := by
      rw [tracks.isBound, Ledger.isBound_eq_false_iff]
      exact behind.unbound label (by simp)
    exact .inr ⟨unbound, queues_behind_next unbound inside remains closed _⟩
  | plain own =>
    have unbound : now.isBound (ledger.upcoming stem) = false := by
      rw [tracks.isBound, Ledger.isBound_eq_false_iff]
      exact free _ rfl
    have more : (rest.pushFollowing frame).remaining ≠ [] := remains ▸ List.cons_ne_nil _ _
    exact .inr ⟨unbound, queues_behind_fresh unbound inside more _⟩

/-- What stands behind a loop is in one of the blocks that the loop promises. -/
theorem Call.Sound.promised_behind {plan : LoopPlan} {inner : List Stmt} {entered : Run}
    (sound : call.Sound stem done ledger) (inlines : call.Inlines frame rest plan inner entered) :
    (rest.pushFollowing frame).remaining = [] ∨ ∃ promise ∈ plan.promises,
      (rest.pushFollowing frame).remaining <:+ promise.block.continuation.remaining := by
  obtain ⟨⟨current, met, _⟩, _, _, _, _, _, planned, _⟩ := inlines
  obtain ⟨named, planned, _⟩ := sound.tracks.planLoop (sound.following met).1 planned
  rcases layout_resumes planned with nothing | ⟨promise, member, same | ⟨condition, same⟩⟩
  · exact .inl nothing
  · exact .inr ⟨promise, member, same ▸ List.suffix_refl _⟩
  · refine .inr ⟨promise, member, ?_⟩
    rw [same, Continuation.remaining_push]
    exact List.suffix_append _ _

end Queues

/-- The run for the body comes to the block, which is taken off the queue and made from the state
on. The blocks before it have been made. -/
inductive ComesTo (options : Options) (body : List Stmt) : Pending → Run → Prop where
  | first {block : Pending} {entry start : Run} (checked : precheck options body = .ok ())
      (more : body ≠ [])
      (starts : scheduleBody options body (.start options (openedJournal body)) = .ok () entry)
      (taken : takeNext entry = .ok (some block) start) : ComesTo options body block start
  | next {block later : Pending} {made : LabeledBlock} {start after start' : Run}
      (comes : ComesTo options body block start) (success : makeBlock block start = .ok made after)
      (taken : takeNext after = .ok (some later) start') : ComesTo options body later start'

/-- The call that puts the code of the block into it. -/
def Pending.firstCall (block : Pending) (start : Run) : Call :=
  ⟨block.continuation, block.fallThrough, .blockStart block.name,
    start.note (.event (.flatteningBlock block.name block.fallThrough))⟩

section ComesTo

variable {options : Options} {body : List Stmt} {block : Pending} {start : Run}

theorem ComesTo.accepted (comes : ComesTo options body block start) : Accepted options body := by
  induction comes with
  | first checked => exact precheck_ok_iff.1 checked
  | next _ _ _ ih => exact ih

/-- Each block that the run comes to resumes a loop only if that loop has been moved there. -/
theorem ComesTo.resumes (comes : ComesTo options body block start) :
    ∃ done ledger, ledger.sent[done]? = some block ∧
      Tracks options.anonymousPrefix (done + 1) start ledger ∧
      Steady options.anonymousPrefix body done ledger ∧
      ∀ other ∈ ledger.sent, other.Resumes ledger.moved := by
  induction comes with
  | first checked more starts taken =>
    obtain ⟨entry, starts', tracks⟩ := tracks_scheduleBody options more
    cases starts.symm.trans starts'
    have steady := steady_entry (precheck_ok_iff.1 checked)
    rcases tracks.takeNext taken with ⟨nothing, _⟩ | ⟨block, same, waits, tracks⟩
    · cases nothing
    · cases same
      refine ⟨0, _, waits, tracks, steady, fun other member => ?_⟩
      cases List.mem_singleton.1 member
      exact Pending.resumes_of_whole (Continuation.whole_ofBlock body)
  | next comes success taken ih =>
    obtain ⟨done, ledger, waits, tracks, steady, resumes⟩ := ih
    obtain ⟨inside, begun⟩ := steady.next waits
    obtain ⟨out, between, _, placed, tracks⟩ := placed_of_makeBlock tracks inside begun success
    rcases tracks.takeNext taken with ⟨nothing, _⟩ | ⟨later, same, waits', tracks⟩
    · cases nothing
    · cases same
      refine ⟨done + 1, between, waits', tracks, steady.step waits placed, fun other member => ?_⟩
      have here := resumes _ (List.mem_of_getElem? waits)
      rcases placed.resumes here.atFor other member with old | new
      · exact (resumes other old).mono placed.moved_subset
      · exact new

/-- The code of a block that the run comes to can be put into it. -/
theorem ComesTo.sound (comes : ComesTo options body block start) :
    ∃ done ledger, (block.firstCall start).Sound options.anonymousPrefix (done + 1) ledger ∧
      block.Resumes ledger.moved := by
  obtain ⟨done, ledger, waits, tracks, steady, resumes⟩ := comes.resumes
  obtain ⟨inside, begun⟩ := steady.next waits
  have unmade := steady.unmade fun _ declared => comes.accepted.named declared
  exact ⟨done, ledger, ⟨inside, begun, unmade, tracks.note ⟨rfl, rfl, rfl⟩⟩,
    resumes block (List.mem_of_getElem? waits)⟩

/-- Whatever call a run makes while it makes a block: if the call comes to a label that has been
bound, it is the first call for the block, nothing has been put into the block, and the block has
the label as its name, or it is the one to which the `for` loop under the label was moved. The code
behind a loop is in a block that the loop promises. When a promise comes up, and when the bodies of
a branch have been placed, nobody has claimed the name of the block that holds the code behind the
construct, and that block is queued. -/
theorem mergePoint_of_reaches {call : Call} (comes : ComesTo options body block start)
    (reaches : (block.firstCall start).Reaches call) :
    (∀ frame rest label inner, call.code.pop = some (frame, rest) →
        frame.current = some (.labeled label inner) → call.run.isBound label = true →
        call = block.firstCall start ∧
          (block.name = label ∨ frame.afterInit = true ∧ inner.kind = .forLoop ∧
            block.name ∈ Journal.told Journal.Entry.movedTo call.run.journal)) ∧
      (∀ frame rest plan inner entered, call.Inlines frame rest plan inner entered →
        (rest.pushFollowing frame).remaining = [] ∨ ∃ promise ∈ plan.promises,
          (rest.pushFollowing frame).remaining <:+ promise.block.continuation.remaining) ∧
      (∀ promise now, call.Keeps promise now →
        now.isBound promise.block.name = false ∧ Queues (keep promise) now () promise.block) ∧
      ∀ frame rest after placed now, call.Settles frame rest after placed now →
        (∃ name, after = .fallThrough name) ∧ (rest.pushFollowing frame).remaining = [] ∨
          now.isBound after.name = false ∧
            Queues (placeBehind place after placed (rest.pushFollowing frame) call.fallThrough) now
              placed ⟨rest.pushFollowing frame, after.name, call.fallThrough⟩ := by
  obtain ⟨done, ledger, first, resuming⟩ := comes.sound
  obtain ⟨later, sound⟩ := reaches.sound first
  refine ⟨fun frame rest label inner popped here bound => ?_,
    fun _ _ _ _ _ inlines => sound.promised_behind inlines, fun promise now keeps => ?_,
    fun _ _ _ _ _ settles => sound.queues_behind settles⟩
  · have met : call.code.At frame rest (.labeled label inner) := ⟨popped, here⟩
    rcases reaches.unmet first with rfl | ⟨later, unmet⟩
    · refine ⟨rfl, ?_⟩
      rw [first.tracks.isBound] at bound
      cases resumed : frame.afterInit with
      | false =>
        exact .inl (Option.some.inj ((first.begun.owned met).start resumed label rfl bound))
      | true =>
        refine .inr ⟨rfl, ?_, ?_⟩
        · obtain ⟨loop, kind, rfl | ⟨_, same⟩⟩ := resuming.atFor _ _ _ met resumed
          · cases kind
          · cases same
            exact kind
        · rw [first.tracks.moved]
          exact resuming.moved met resumed
    · rw [unmet.tracks.isBound, Ledger.isBound_iff] at bound
      refine absurd bound (unmet.unseen.unbound label ?_)
      rw [met.remaining]
      simp
  · obtain ⟨free, ready⟩ := sound.unclaimed keeps
    exact ⟨free, queues_keep free ready⟩

end ComesTo

/-- A `for` loop around a label. -/
def innerFor : Stmt := .forLoop (.expression (.identifier "start")) none none
  [.labeled "inner" (.expression (.identifier "work"))]

/-- The loop under a label, and another label behind it. -/
def outerFor : List Stmt :=
  [.labeled "outer" innerFor, .labeled "after" (.expression (.identifier "last"))]

/-- The block to which the loop is moved behind its initializer. -/
def resumedFor : Pending := ⟨⟨[⟨outerFor, 0, true⟩]⟩, "$sm1", "$exit"⟩

/-- The state in which that block is made, after the entry block and the one under the loop's
label. -/
def resumedRun : Run :=
  ⟨⟨[], ⟨["$sm1", "outer", "$sm0"]⟩⟩, ⟨"$sm", 2⟩, openedJournal outerFor ++
    (#[.event (.scheduled "$sm0" "$exit" 1), .event (.flatteningBlock "$sm0" "$exit"),
      .event (.labelStartsBlock "outer"), .event (.scheduled "outer" "$exit" 1),
      .event (.finishedBlock "$sm0" 1 1), .event (.flatteningBlock "outer" "$exit"),
      .event (.loopMoved "$sm1"), .event (.scheduled "$sm1" "$exit" 1),
      .event (.finishedBlock "outer" 2 1)] : Journal)⟩

theorem comesTo_resumedFor : ComesTo .standard outerFor resumedFor resumedRun := by
  let entry : Pending := ⟨.ofBlock outerFor, "$sm0", "$exit"⟩
  let named : Pending := ⟨⟨[⟨outerFor, 0, false⟩]⟩, "outer", "$exit"⟩
  let opened : Journal := (openedJournal outerFor).push (.event (.scheduled "$sm0" "$exit" 1))
  let labeled : Journal := opened ++ (#[.event (.flatteningBlock "$sm0" "$exit"),
    .event (.labelStartsBlock "outer"), .event (.scheduled "outer" "$exit" 1),
    .event (.finishedBlock "$sm0" 1 1)] : Journal)
  have declared : labels outerFor = ["outer", "inner", "after"] := by cbv
  have accepted : Accepted .standard outerFor :=
    ⟨rfl, by rw [declared]; decide, by rw [declared]; decide⟩
  have first : ComesTo .standard outerFor entry ⟨⟨[], ⟨["$sm0"]⟩⟩, ⟨"$sm", 1⟩, opened⟩ :=
    .first (precheck_ok_iff.2 accepted) (List.cons_ne_nil _ _) rfl rfl
  have opens : makeBlock entry ⟨⟨[], ⟨["$sm0"]⟩⟩, ⟨"$sm", 1⟩, opened⟩ =
      .ok ⟨"$sm0", [.goto "outer"]⟩
        ⟨⟨[named], ⟨["outer", "$sm0"]⟩⟩, ⟨"$sm", 1⟩, labeled⟩ := by cbv
  have moves : makeBlock named ⟨⟨[], ⟨["outer", "$sm0"]⟩⟩, ⟨"$sm", 1⟩, labeled⟩ =
      .ok ⟨"outer", [.expression (.identifier "start"), .goto "$sm1"]⟩
        { resumedRun with schedule := ⟨[resumedFor], resumedRun.schedule.registry⟩ } := by cbv
  exact .next (.next first opens rfl) moves rfl

/-- The loop is taken apart there, and promises the code behind it once its body has been placed. -/
theorem keeps_resumedFor : ∃ now, (resumedFor.firstCall resumedRun).Keeps
    ⟨⟨⟨[⟨outerFor, 1, false⟩]⟩, "after", "$exit"⟩, true⟩ now := by
  let inside : List Stmt := [.labeled "inner" (.expression (.identifier "work"))]
  let laidOut : Run := ⟨resumedRun.schedule, resumedRun.mint, resumedRun.journal ++
    (#[.event (.flatteningBlock "$sm1" "$exit"),
      .event (.inliningFor "$sm1" "$sm1" (.next "after"))] : Journal)⟩
  have runs : (resumedFor.firstCall resumedRun).Runs ⟨outerFor, 0, true⟩ .empty innerFor :=
    ⟨_, ⟨rfl, rfl⟩, rfl⟩
  have inlines : (resumedFor.firstCall resumedRun).Inlines ⟨outerFor, 0, true⟩ .empty
      ⟨[], ⟨some "after", "$sm1"⟩, [⟨⟨⟨[⟨outerFor, 1, false⟩]⟩, "after", "$exit"⟩, true⟩]⟩ inside
      laidOut := .here runs (by cbv) rfl (by cbv) rfl rfl rfl rfl
  have placed : place (.ofBlock inside) "$sm1" .inside laidOut = .ok [.goto "inner"]
      ⟨⟨[⟨.ofBlock inside, "inner", "$sm1"⟩], ⟨["inner", "$sm1", "outer", "$sm0"]⟩⟩, ⟨"$sm", 2⟩,
        laidOut.journal ++ (#[.event (.labelStartsBlock "inner"),
          .event (.scheduled "inner" "$sm1" 1)] : Journal)⟩ := by cbv
  exact ⟨_, .next inlines placed (List.nil_append _).symm rfl⟩

/-- A branch around a label, and another label behind it. -/
def branched : List Stmt :=
  [.branch (.identifier "test") [.labeled "inner" (.expression (.identifier "work"))] none,
    .labeled "after" (.expression (.identifier "last"))]

def branchedEntry : Pending := ⟨.ofBlock branched, "$sm0", "$exit"⟩

def branchedRun : Run :=
  ⟨⟨[], ⟨["$sm0"]⟩⟩, ⟨"$sm", 1⟩,
    (openedJournal branched).push (.event (.scheduled "$sm0" "$exit" 1))⟩

theorem comesTo_branchedEntry : ComesTo .standard branched branchedEntry branchedRun := by
  have declared : labels branched = ["inner", "after"] := by cbv
  have accepted : Accepted .standard branched :=
    ⟨rfl, by rw [declared]; decide, by rw [declared]; decide⟩
  exact .first (precheck_ok_iff.2 accepted) (List.cons_ne_nil _ _) rfl rfl

theorem settles_branched : ∃ placed now, (branchedEntry.firstCall branchedRun).Settles
    ⟨branched, 0, false⟩ .empty (.next "after") placed now := by
  have runs : (branchedEntry.firstCall branchedRun).Runs ⟨branched, 0, false⟩ .empty
      (.branch (.identifier "test") [.labeled "inner" (.expression (.identifier "work"))] none) :=
    ⟨_, ⟨rfl, rfl⟩, rfl⟩
  let entered := (branchedEntry.firstCall branchedRun).run.note
    (.event (.flatteningBranch (.next "after")))
  have branches : (branchedEntry.firstCall branchedRun).Branches ⟨branched, 0, false⟩ .empty
      (.identifier "test") [.labeled "inner" (.expression (.identifier "work"))] none
      (.next "after") entered := ⟨runs, by cbv, rfl⟩
  let inside : Continuation Stmt := .ofBlock [.labeled "inner" (.expression (.identifier "work"))]
  have thenPlaced : place inside "after" .inside entered = .ok [.goto "inner"]
      ⟨⟨[⟨inside, "inner", "after"⟩], ⟨["inner", "$sm0"]⟩⟩, ⟨"$sm", 1⟩,
        entered.journal ++ (#[.event (.labelStartsBlock "inner"),
          .event (.scheduled "inner" "after" 1)] : Journal)⟩ := by cbv
  exact ⟨_, _, .both branches thenPlaced rfl⟩

/-- The block to which the loop is moved comes to the label of the loop again, and then to the
promise to schedule the code under the label behind it. Behind the branch, the code under the next
label is scheduled. -/
theorem mergePoint_of_reaches_resumedFor :
    (ComesTo .standard outerFor resumedFor resumedRun ∧
      (resumedFor.firstCall resumedRun).Reaches (resumedFor.firstCall resumedRun) ∧
      (resumedFor.firstCall resumedRun).run.isBound "outer" = true ∧
      "$sm1" ∈ Journal.told Journal.Entry.movedTo resumedRun.journal ∧
      ∃ now, (resumedFor.firstCall resumedRun).Keeps
        ⟨⟨⟨[⟨outerFor, 1, false⟩]⟩, "after", "$exit"⟩, true⟩ now ∧ now.isBound "after" = false ∧
          Queues (keep ⟨⟨⟨[⟨outerFor, 1, false⟩]⟩, "after", "$exit"⟩, true⟩) now ()
            ⟨⟨[⟨outerFor, 1, false⟩]⟩, "after", "$exit"⟩) ∧
      ∃ placed now, (branchedEntry.firstCall branchedRun).Settles ⟨branched, 0, false⟩ .empty
        (.next "after") placed now ∧
          Queues (placeBehind place (.next "after") placed ⟨[⟨branched, 1, false⟩]⟩ "$exit") now
            placed ⟨⟨[⟨branched, 1, false⟩]⟩, "after", "$exit"⟩ := by
  constructor
  · obtain ⟨now, keeps⟩ := keeps_resumedFor
    obtain ⟨merges, _, kept, _⟩ := mergePoint_of_reaches comesTo_resumedFor .refl
    have moved := (merges _ _ _ _ rfl rfl rfl).2.resolve_left (by decide)
    obtain ⟨free, queued⟩ := kept _ _ keeps
    exact ⟨comesTo_resumedFor, .refl, rfl, moved.2.2, now, keeps, free, queued⟩
  · obtain ⟨placed, now, settles⟩ := settles_branched
    obtain ⟨_, _, _, behind⟩ := mergePoint_of_reaches comesTo_branchedEntry .refl
    obtain ⟨⟨_, other⟩, _⟩ | ⟨_, queued⟩ := behind _ _ _ _ _ settles
    · cases other
    · exact ⟨placed, now, settles, queued⟩

end Unnest.Flatten
