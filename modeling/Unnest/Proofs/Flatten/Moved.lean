import Unnest.Proofs.Flatten.Flattened
import Unnest.Proofs.Flatten.Stages

/-! Where loops go. Each loop that contains labels is taken apart in one block. If it has to be
moved, the block that it is moved to starts with it, and takes it apart. -/

namespace Unnest.Flatten
open Script

/-- The statement is a loop that contains labels. -/
def labeledLoop (statement : Stmt) : Bool := (loopOf statement).isSome && statement.containsLabels

/-- The loops that contain labels in the statement. -/
def loopsOf (statement : Stmt) : List Stmt := statement.nodes.filter labeledLoop

/-- How many loops that contain labels the statements hold. -/
def loops (statements : List Stmt) : Nat := (statements.flatMap loopsOf).length

section Loops

variable {targets : LoopTargets} {before after : Stmt} {body inner : List Stmt}

theorem loopsOf_eq (statement : Stmt) : loopsOf statement =
    (if labeledLoop statement then [statement] else []) ++ statement.children.flatMap loopsOf := by
  rw [loopsOf, Stmt.nodes_eq, List.filter_cons, List.filter_flatMap]
  split <;> rfl

@[simp] theorem loops_nil : loops [] = 0 := rfl

@[simp] theorem loops_append (front back : List Stmt) :
    loops (front ++ back) = loops front + loops back := by
  simp [loops]

theorem loops_cons (first : Stmt) (rest : List Stmt) :
    loops (first :: rest) = loops [first] + loops rest := loops_append [first] rest

theorem loops_singleton (statement : Stmt) :
    loops [statement] = (if labeledLoop statement then 1 else 0) + loops statement.children := by
  rw [loops, List.flatMap_singleton, loopsOf_eq, List.length_append]
  split <;> rfl

theorem loops_eq_countP (statements : List Stmt) :
    loops statements = (nodes statements).countP labeledLoop := by
  rw [loops, nodes, List.countP_eq_length_filter, List.filter_flatMap]
  rfl

/-- A statement that is no loop only holds loops in its children. -/
theorem loops_plain {statement : Stmt} (plain : loopOf statement = none) :
    loops [statement] = loops statement.children := by
  simp [loops_singleton, labeledLoop, plain]

theorem loopsOf_free {statement : Stmt} (free : statement.containsLabels = false) :
    loopsOf statement = [] := by
  rw [loopsOf, List.filter_eq_nil_iff]
  intro node member
  simp [labeledLoop, unlabeled_of_free free member]

theorem loops_loop {loop : Stmt} {head : LoopHead} (labeled : loop.containsLabels = true)
    (isLoop : loopOf loop = some (head, body)) (plainInit : head.labeledInit = none) :
    loops [loop] = 1 + loops body := by
  rw [loops_singleton, labeledLoop, isLoop, labeled]
  cases loop <;> simp only [loopOf, reduceCtorEq, Option.some.injEq, Prod.mk.injEq] at isLoop <;>
    obtain ⟨rfl, rfl⟩ := isLoop
  · rfl
  · rfl
  · next init condition iterator body =>
    have free : init.containsLabels = false := by simpa [LoopHead.labeledInit] using plainInit
    rw [Stmt.children, loops_cons, loops, List.flatMap_singleton, loopsOf_free free]
    simp

theorem loops_redirect (redirects : redirect targets body = .ok inner) :
    loops inner = loops body := by
  have same := (redirectedAll_of_redirect redirects).flatMap_eq (f := loopsOf) fun _ _ _ success =>
    flatMap_of_redirectStmt (fun statement => if labeledLoop statement then [statement] else [])
      loopsOf_eq (fun before after success => by
        cases redirected_of_redirectStmt success <;> simp [labeledLoop, loopOf]) success
  rw [loops, loops, same]

theorem Passed.loops {isBound : String → Bool} {current inner : Stmt}
    (passed : Passed isBound current inner) : loops [current] = loops [inner] := by
  cases passed with
  | plain own => rfl
  | below bound => exact loops_plain rfl

end Loops

/-- The loops that the blocks have still to come to. -/
def awaited (blocks : List Pending) : Nat :=
  (blocks.map fun block => loops block.continuation.remaining).sum

@[simp] theorem awaited_append (front back : List Pending) :
    awaited (front ++ back) = awaited front + awaited back := by
  simp [awaited]

/-- Of so many loops, one may have been taken apart in the block in the making, and the others
wait in the blocks that are scheduled in between, some of which resume a loop. -/
structure Takes (reentry : Option String) (held : Nat) (ledger later : Ledger)
    (more resumed : List Pending) (found : List String) : Prop where
  sent : later.sent = ledger.sent ++ more
  moved : later.moved = ledger.moved ++ resumed.map Pending.name
  among : List.Sublist resumed more
  ready : ∀ block ∈ resumed, startsLoop later.isBound block.continuation = true
  inlined : later.inlined = ledger.inlined ++ found
  here : List.Sublist found reentry.toList
  counted : held = found.length + awaited more

def Taken (reentry : Option String) (held : Nat) (ledger later : Ledger) : Prop :=
  ∃ more resumed found, Takes reentry held ledger later more resumed found

section Taken

variable {stem fallThrough : String} {reentry : Option String} {ledger named between later : Ledger}
  {held others : Nat} {code rest following : Continuation Stmt} {frame : Frame Stmt} {current : Stmt}
  {spot : Spot} {out : List Stmt}

/-- Nothing is said about loops in between. -/
structure Silent (ledger later : Ledger) : Prop where
  sent : later.sent = ledger.sent
  moved : later.moved = ledger.moved
  inlined : later.inlined = ledger.inlined

theorem Chosen.silent {statements : List Stmt} {after : Successor}
    (chosen : Chosen stem ledger fallThrough statements after named) : Silent ledger named := by
  cases chosen <;> exact ⟨rfl, rfl, rfl⟩

theorem layout_silent {head : LoopHead} {body : List Stmt} {loopName : String} {plan : LoopPlan}
    (planned : layout stem head body loopName following fallThrough ledger = (plan, named)) :
    Silent ledger named := by
  have minted {later : Ledger} (silent : Silent ledger.mint later) : Silent ledger later :=
    ⟨silent.sent, silent.moved, silent.inlined⟩
  cases head with
  | whileHead condition =>
    cases planned
    exact (chosen_successor ..).silent
  | doHead condition =>
    unfold layout at planned
    cases breaks : containsBreak body with
    | true =>
      simp only [breaks, if_true] at planned
      cases planned
      exact minted (chosen_successor ..).silent
    | false =>
      simp only [breaks, Bool.false_eq_true, if_false] at planned
      cases planned
      exact ⟨rfl, rfl, rfl⟩
  | forHead init condition iterator =>
    cases iterator with
    | none =>
      cases planned
      exact (chosen_successor ..).silent
    | some iterator =>
      cases planned
      exact minted (chosen_successor ..).silent

theorem Taken.none : Taken reentry 0 ledger ledger :=
  ⟨[], [], [], (List.append_nil _).symm, (List.append_nil _).symm, .slnil, nofun,
    (List.append_nil _).symm, List.nil_sublist _, rfl⟩

theorem Taken.silent (taken : Taken reentry held between later) (silent : Silent ledger between) :
    Taken reentry held ledger later := by
  obtain ⟨more, resumed, found, sent, moved, among, ready, inlined, here, counted⟩ := taken
  exact ⟨more, resumed, found, by rw [sent, silent.sent], by rw [moved, silent.moved], among, ready,
    by rw [inlined, silent.inlined], here, counted⟩

theorem Taken.anywhere (taken : Taken Option.none held ledger later) : Taken reentry held ledger later := by
  obtain ⟨more, resumed, found, sent, moved, among, ready, inlined, here, counted⟩ := taken
  exact ⟨more, resumed, found, sent, moved, among, ready, inlined,
    here.trans (List.nil_sublist _), counted⟩

theorem Taken.trans (first : Taken reentry held ledger between)
    (second : Taken Option.none others between later) :
    Taken reentry (held + others) ledger later := by
  obtain ⟨front, early, found, sent, moved, among, ready, inlined, here, counted⟩ := first
  obtain ⟨back, late, nothing, sent', moved', among', ready', inlined', nowhere, counted'⟩ := second
  have none : nothing = [] := List.sublist_nil.1 nowhere
  have still : ∀ name, between.isBound name = true → later.isBound name = true :=
    isBound_mono (by rw [names_of_sent sent']; exact List.subset_append_left _ _)
  refine ⟨front ++ back, early ++ late, found, ?_, ?_, among.append among', ?_, ?_, here, ?_⟩
  · rw [sent', sent, List.append_assoc]
  · rw [moved', moved, List.map_append, List.append_assoc]
  · exact List.forall_mem_append.2 ⟨fun block member => startsLoop_mono still (ready block member), ready'⟩
  · rw [inlined', inlined, none, List.append_nil]
  · rw [awaited_append, counted, counted', none, List.length_nil]
    omega

theorem Taken.ofSendAll {blocks : List Pending} (sent : ledger.sendAll? blocks = some later) :
    Taken reentry (awaited blocks) ledger later := by
  rw [Ledger.sendAll_inv sent]
  exact ⟨blocks, [], [], rfl, (List.append_nil _).symm, List.nil_sublist _, nofun,
    (List.append_nil _).symm, List.nil_sublist _, (Nat.zero_add _).symm⟩

theorem Taken.ofSend {block : Pending} (sent : ledger.send? block = some later) :
    Taken reentry (loops block.continuation.remaining) ledger later := by
  rw [(Ledger.send_inv sent).2]
  exact ⟨[block], [], [], rfl, (List.append_nil _).symm, List.nil_sublist _, nofun,
    (List.append_nil _).symm, List.nil_sublist _, (Nat.zero_add _).symm⟩

theorem Taken.settle {after : Successor} {settled : Ledger}
    (settles : ledger.settle? after following fallThrough = some settled)
    (taken : Taken Option.none (loops (after.leftover following).remaining) settled later) :
    Taken reentry (loops following.remaining) ledger later := by
  cases after with
  | next | fallThrough =>
    cases settles
    exact taken.anywhere
  | fresh name => exact (Taken.ofSend settles).trans taken

/-- A loop is taken apart in the block in the making. -/
theorem Taken.inline {loopName : String} (taken : Taken Option.none held (named.inline loopName) later)
    (silent : Silent ledger named) : Taken (some loopName) (1 + held) ledger later := by
  obtain ⟨more, resumed, found, sent, moved, among, ready, inlined, nowhere, counted⟩ := taken
  have none : found = [] := List.sublist_nil.1 nowhere
  subst none
  refine ⟨more, resumed, [loopName], ?_, ?_, among, ready, ?_, .refl _, ?_⟩
  · rw [sent, Ledger.inline, silent.sent]
  · rw [moved, Ledger.inline, silent.moved]
  · rw [inlined, Ledger.inline, List.append_nil, silent.inlined]
  · rw [counted, List.length_singleton, List.length_nil, Nat.zero_add]

theorem layout_awaited {head : LoopHead} {body : List Stmt} {loopName : String} {plan : LoopPlan}
    (planned : layout stem head body loopName following fallThrough ledger = (plan, named)) :
    awaited (plan.promises.map Promise.block) = loops following.remaining := by
  have conserved := layout_conserves loopsOf
    (fun _ => loopsOf_free (Stmt.labels_eq_nil_iff.1 (Stmt.labels_goto _)))
    (fun _ => loopsOf_free (Stmt.labels_eq_nil_iff.1 (Stmt.labels_expression _)))
    (fun _ => loopsOf_free (Stmt.labels_eq_nil_iff.1 (by simp [loopCheck, Stmt.ifThen]))) planned
  rw [loops, ← conserved, awaited, List.length_flatMap, List.map_map]
  rfl

/-- The loops of the code are taken apart here or left to the blocks that are scheduled. -/
theorem Placed.taken (placed : Placed stem ledger code fallThrough spot out later) :
    Taken spot.reentry (loops code.remaining) ledger later := by
  induction placed with
  | ends nothing =>
    rw [Continuation.remaining_of_pop_none nothing]
    exact .none
  | opens met owned arrival sent => exact .ofSend sent
  | unwraps met owned arrival placed ih =>
    rw [Continuation.remaining_push_block, loops_append] at ih
    rwa [met.remaining, loops_cons, (passed_of_unwraps arrival).loops]
  | copies met owned arrival free plain placed ih =>
    rw [met.remaining, loops_cons, (runs_inv arrival).2.loops, loops, List.flatMap_singleton,
      loopsOf_free free, List.length_nil, Nat.zero_add]
    exact ih.anywhere
  | splices met owned arrival labeled placed ih =>
    rw [Continuation.remaining_push_block, loops_append] at ih
    rwa [met.remaining, loops_cons, (runs_inv arrival).2.loops, loops_plain rfl, Stmt.children]
  | branches met owned arrival labeled chosen thenPlaced elsePlaced settles placed ihThen ihElse ih =>
    rw [Continuation.remaining_ofBlock] at ihThen ihElse
    have whole := ihThen.trans (ihElse.trans (Taken.settle settles ih))
    rw [met.remaining, loops_cons, (runs_inv arrival).2.loops, loops_plain rfl, Stmt.children,
      loops_append, Nat.add_assoc]
    exact (whole.silent (chosen_of_successor chosen).silent).anywhere
  | inlines met owned arrival labeled isLoop plainInit start ready planned redirects placed kept ih =>
    rw [Continuation.remaining_ofBlock, loops_redirect redirects] at ih
    have promised : Taken Option.none _ _ _ := Taken.ofSendAll kept
    rw [layout_awaited planned] at promised
    rw [start, met.remaining, loops_cons, (runs_inv arrival).2.loops,
      loops_loop labeled isLoop plainInit, Nat.add_assoc]
    exact (ih.trans promised).inline (layout_silent planned)
  | @splits ledger later code rest frame current loop head body fallThrough spot met owned arrival
      labeled isLoop plainInit unready sent =>
    have same := (Ledger.send_inv sent).2
    let task : Pending := ⟨rest.push (head.resumption frame), ledger.upcoming stem, fallThrough⟩
    refine ⟨[task], [task], [], ?_, ?_, .refl _, ?_, ?_, List.nil_sublist _, ?_⟩
    · rw [same]
      rfl
    · rw [same]
      rfl
    · intro block member
      rw [List.mem_singleton.1 member]
      exact startsLoop_resumption met arrival labeled isLoop sent
    · rw [same, List.append_nil]
      rfl
    · simp [awaited, task, At.remaining_resumption met]

/-- A block that starts with a loop takes the loop apart. -/
theorem Placed.inlined_of_startsLoop {name : String}
    (placed : Placed stem ledger code fallThrough (.blockStart name) out later)
    (starts : startsLoop ledger.isBound code = true) : later.inlined = ledger.inlined ++ [name] := by
  cases placed with
  | ends nothing =>
    obtain ⟨_ | ⟨frame, frames⟩⟩ := code
    · cases starts
    · cases nothing
  | opens met owned arrival sent => simp [startsLoop_of_at met, arrival] at starts
  | unwraps met owned arrival placed => simp [startsLoop_of_at met, arrival] at starts
  | copies met owned arrival free plain placed =>
    simp [startsLoop_of_at met, arrival, free] at starts
  | splices met owned arrival labeled placed =>
    simp [startsLoop_of_at met, arrival, loopOf] at starts
  | branches met owned arrival labeled chosen thenPlaced elsePlaced settles placed =>
    simp [startsLoop_of_at met, arrival, loopOf] at starts
  | inlines met owned arrival labeled isLoop plainInit start ready planned redirects placed kept =>
    cases start
    obtain ⟨_, _, found, _, _, _, _, inlined, nowhere, _⟩ := placed.taken
    have none : found = [] := List.sublist_nil.1 nowhere
    rw [Ledger.sendAll_inv kept]
    simp only [inlined, none, List.append_nil, Ledger.inline, (layout_silent planned).inlined]
  | splits met owned arrival labeled isLoop plainInit unready sent =>
    rw [startsLoop_loop met arrival labeled isLoop, List.isEmpty_iff] at starts
    rcases unready with elsewhere | waits
    · cases elsewhere
    · exact absurd starts waits

end Taken

/-- What has become of the loops between two blocks. A loop that has been moved has been taken
apart, or its block still waits and starts with it. -/
structure Tidy (body : List Stmt) (done : Nat) (ledger : Ledger) : Prop where
  moved : List.Sublist ledger.moved ledger.names
  inlined : List.Sublist ledger.inlined (ledger.names.take done)
  resumed : ∀ block ∈ ledger.sent.drop done, block.name ∈ ledger.moved →
    startsLoop ledger.isBound block.continuation = true
  ahead : ∀ name ∈ ledger.moved, name ∈ ledger.inlined ∨
    name ∈ (ledger.sent.drop done).map Pending.name
  counted : ledger.inlined.length + awaited (ledger.sent.drop done) = loops body

section Tidy

variable {stem : String} {body : List Stmt} {done last : Nat} {ledger between later : Ledger}
  {block : Pending} {out : List Stmt} {blocks : List LabeledBlock}

theorem same_of_name (distinct : ledger.names.Nodup) {first second : Pending}
    (inSent : first ∈ ledger.sent) (also : second ∈ ledger.sent) (same : first.name = second.name) :
    first = second :=
  List.inj_on_of_nodup_map distinct inSent also same

theorem Tidy.step (tidy : Tidy body done ledger) (distinct : between.names.Nodup)
    (waits : ledger.sent[done]? = some block)
    (placed : Placed stem ledger block.continuation block.fallThrough (.blockStart block.name) out
      between) : Tidy body (done + 1) between := by
  obtain ⟨more, resumed, found, sent, moved, among, ready, inlined, here, counted⟩ := placed.taken
  have split := drop_of_waits waits
  have within := (List.getElem?_eq_some_iff.1 waits).1
  have dropped := drop_of_sent waits sent
  have earlier {other : Pending} (member : other ∈ ledger.sent.drop (done + 1)) :
      other ∈ ledger.sent := List.mem_of_mem_drop member
  have inMore {other : Pending} (member : other ∈ more) : other ∈ between.sent :=
    sent ▸ List.mem_append_right _ member
  have apart {old new : Pending} (before : old ∈ ledger.sent) (after : new ∈ more) :
      old.name ≠ new.name := name_ne_of_sent distinct sent before after
  refine ⟨?_, ?_, ?_, ?_, ?_⟩
  · rw [moved, names_of_sent sent]
    exact tidy.moved.append (among.map _)
  · have owned : ledger.names[done]? = some block.name := by
      rw [Ledger.names, List.getElem?_map, waits]
      rfl
    rw [inlined, names_of_sent sent, List.take_append_of_le_length (by simpa [Ledger.names]),
      List.take_add_one, owned]
    exact tidy.inlined.append here
  · intro other member resumes
    rw [dropped, List.mem_append] at member
    rw [moved, List.mem_append, List.mem_map] at resumes
    rcases member with old | new
    · rcases resumes with before | ⟨task, inResumed, same⟩
      · exact startsLoop_mono (isBound_mono placed.grows.names_subset)
          (tidy.resumed other (by rw [split]; exact List.mem_cons_of_mem _ old) before)
      · exact absurd same.symm (apart (earlier old) (among.subset inResumed))
    · rcases resumes with before | ⟨task, inResumed, same⟩
      · obtain ⟨owner, inLedger, same⟩ := List.mem_map.1 (tidy.moved.subset before)
        exact absurd same (apart inLedger new)
      · rw [← same_of_name distinct (inMore (among.subset inResumed)) (inMore new) same]
        exact ready task inResumed
  · intro name member
    rw [dropped, List.map_append, List.mem_append, inlined, List.mem_append]
    rw [moved, List.mem_append, List.mem_map] at member
    rcases member with before | ⟨task, inResumed, rfl⟩
    · rcases tidy.ahead name before with gone | waiting
      · exact .inl (.inl gone)
      · rw [split, List.map_cons, List.mem_cons] at waiting
        rcases waiting with rfl | waiting
        · have starts := tidy.resumed block (by rw [split]; exact List.mem_cons_self ..) before
          have said := placed.inlined_of_startsLoop starts
          rw [inlined] at said
          rw [List.append_cancel_left said]
          exact .inl (.inr (List.mem_singleton_self _))
        · exact .inr (.inl waiting)
    · exact .inr (.inr (List.mem_map_of_mem (among.subset inResumed)))
  · have whole := tidy.counted
    rw [split, ← List.singleton_append, awaited_append] at whole
    rw [inlined, dropped, awaited_append, List.length_append]
    simp only [awaited, List.map_cons, List.map_nil, List.sum_cons, List.sum_nil] at whole counted ⊢
    omega

theorem Made.tidy (made : Made stem done ledger blocks last later)
    (steady : Steady stem body done ledger) (tidy : Tidy body done ledger) :
    Tidy body last later := by
  induction made with
  | stops => exact tidy
  | makes waits placed made ih =>
    have next := steady.step waits placed
    exact ih next (tidy.step next.distinct waits placed)

theorem tidy_entry (options : Options) (body : List Stmt) : Tidy body 0 (entryLedger options body) where
  moved := List.nil_sublist _
  inlined := List.nil_sublist _
  resumed _ _ := nofun
  ahead _ := nofun
  counted := by simp [entryLedger, awaited]

end Tidy

/-- A block with something to flatten is queued behind the others. -/
theorem queue_of_enqueue {block : Pending} {run final : Run}
    (more : block.continuation.isEmpty = false) (success : enqueue block run = .ok () final) :
    final.schedule.queue = run.schedule.queue ++ [block] := by
  unfold enqueue Schedule.enqueue at success
  cases bound : run.schedule.registry.bind? block.name with
  | none => simp [bound] at success
  | some registry =>
    simp only [bound, more, Bool.false_eq_true, if_false] at success
    cases success
    rfl

/-- A loop whose initializer has run is taken apart at the start of its block. -/
theorem place_resumption {run : Run} {code rest : Continuation Stmt} {frame : Frame Stmt}
    {current loop : Stmt} {head : LoopHead} {body : List Stmt} (loopName fallThrough : String)
    (met : code.At frame rest current) (arrival : arrive run.isBound current = .runs loop)
    (labeled : loop.containsLabels = true) (isLoop : loopOf loop = some (head, body))
    (plainInit : head.labeledInit = none) :
    place (rest.push (head.resumption frame)) fallThrough (.blockStart loopName) run =
      inlineLoop place head body loopName (rest.pushFollowing frame) fallThrough run := by
  have again := At.resumption met head
  rw [place_of_at again, get_bind_apply]
  simp only [arrival]
  rw [placeStatement, if_pos labeled, placeLabeled_of_loopOf isLoop, placeLoop, plainInit]
  simp only [head.pendingInit_resumption frame]
  rw [pushFollowing_resumption]
  rfl

/-- The block that a loop is moved to takes that loop apart, whenever the block is made. -/
theorem inlines_of_splitBeforeLoop {run moved : Run} {code rest : Continuation Stmt}
    {frame : Frame Stmt} {current loop : Stmt} {head : LoopHead} {body jump : List Stmt}
    {fallThrough : String} (met : code.At frame rest current)
    (arrival : arrive run.isBound current = .runs loop) (labeled : loop.containsLabels = true)
    (isLoop : loopOf loop = some (head, body)) (plainInit : head.labeledInit = none)
    (success : splitBeforeLoop (head.resumption frame) rest fallThrough run = .ok jump moved) :
    ∃ task, jump = [.goto task.name] ∧
      moved.schedule.queue = run.schedule.queue ++ [task] ∧
      ∀ later : Run, (∀ name, run.isBound name = true → later.isBound name = true) →
        place task.continuation task.fallThrough (.blockStart task.name) later =
          inlineLoop place head body task.name (rest.pushFollowing frame) task.fallThrough
            later := by
  obtain ⟨loopTop, middle, minted, success⟩ := RunM.bind_ok success
  cases minted
  obtain ⟨_, reported, event, success⟩ := RunM.bind_ok success
  cases event
  obtain ⟨_, queued, sent, success⟩ := RunM.bind_ok success
  cases success
  have inside : (head.resumption frame).index < (head.resumption frame).block.length :=
    (List.getElem?_eq_some_iff.1 (At.resumption met head).here).1
  refine ⟨_, rfl, (queue_of_enqueue (Continuation.isEmpty_push rest inside) sent).trans rfl,
    fun later still => ?_⟩
  exact place_resumption _ _ met (arrive_mono still arrival) labeled isLoop plainInit

end Unnest.Flatten
