import Unnest.Flatten.Loop
import Unnest.Proofs.Flatten.Remaining
import Unnest.Proofs.Journal.Reported

/-! The ledger of a run: every block it has scheduled, in order, how many names it has made
up, and what its journal tells about loops. Nothing is ever taken off, so the ledger at the
end tells the whole run. Each step of a run is a step of its ledger. -/

namespace Unnest.Flatten
open Script

structure Ledger where
  sent : List Pending
  minted : Nat
  /-- The blocks that loops were moved to. -/
  moved : List String := []
  /-- The blocks in which loops were taken apart. -/
  inlined : List String := []

namespace Ledger

/-- The bound names, each the name of one scheduled block. -/
def names (ledger : Ledger) : List String := ledger.sent.map Pending.name

def isBound (ledger : Ledger) (name : String) : Bool := ledger.names.contains name

/-- The name that is made up next. -/
def upcoming (stem : String) (ledger : Ledger) : String := Mint.nameAt stem ledger.minted

def mint (ledger : Ledger) : Ledger := { ledger with minted := ledger.minted + 1 }

/-- A loop is moved to the block. -/
def move (loopTop : String) (ledger : Ledger) : Ledger :=
  { ledger with moved := ledger.moved ++ [loopTop] }

/-- A loop is taken apart in the block. -/
def inline (loopName : String) (ledger : Ledger) : Ledger :=
  { ledger with inlined := ledger.inlined ++ [loopName] }

/-- Schedule a block under a name that no other block has. -/
def send? (block : Pending) (ledger : Ledger) : Option Ledger :=
  if ledger.isBound block.name then none else some { ledger with sent := ledger.sent ++ [block] }

/-- Schedule a promised block. -/
def keep? (promise : Promise) (ledger : Ledger) : Option Ledger :=
  if promise.unlessBound && ledger.isBound promise.block.name then some ledger
  else ledger.send? promise.block

def keepAll? : List Promise → Ledger → Option Ledger
  | [], ledger => some ledger
  | promise :: rest, ledger => (ledger.keep? promise).bind (keepAll? rest)

def sendAll? : List Pending → Ledger → Option Ledger
  | [], ledger => some ledger
  | block :: rest, ledger => (ledger.send? block).bind (sendAll? rest)

/-- The label of the code that follows a construct, made up if need be. -/
def successor (stem : String) (following : List Stmt) (fallThrough : String) (ledger : Ledger) :
    Successor × Ledger :=
  match following with
  | [] => (.fallThrough fallThrough, ledger)
  | first :: _ =>
    match first.ownLabel with
    | some label => (.next label, ledger)
    | none => (.fresh (ledger.upcoming stem), ledger.mint)

/-- After a branch, the code that follows is scheduled under a made-up label. -/
def settle? (after : Successor) (following : Continuation Stmt) (fallThrough : String)
    (ledger : Ledger) : Option Ledger :=
  match after with
  | .fresh name => ledger.send? ⟨following, name, fallThrough⟩
  | _ => some ledger

/-- The label where the iterator of a loop runs, made up if the loop has one. -/
def stepLabel (stem loopName : String) (iterator : Option Expr) (ledger : Ledger) :
    String × Ledger :=
  match iterator with
  | some _ => (ledger.upcoming stem, ledger.mint)
  | none => (loopName, ledger)

variable {ledger later : Ledger} {block : Pending}

theorem isBound_iff {name : String} : ledger.isBound name = true ↔ name ∈ ledger.names := by
  rw [isBound, List.contains_iff_mem]

theorem isBound_eq_false_iff {name : String} :
    ledger.isBound name = false ↔ name ∉ ledger.names := by
  rw [← isBound_iff, Bool.not_eq_true]

theorem send_inv (sent : ledger.send? block = some later) :
    block.name ∉ ledger.names ∧ later = { ledger with sent := ledger.sent ++ [block] } := by
  unfold send? at sent
  by_cases bound : ledger.isBound block.name = true
  · rw [if_pos bound] at sent
    cases sent
  · rw [if_neg bound] at sent
    cases sent
    exact ⟨fun member => bound (isBound_iff.2 member), rfl⟩

theorem mem_sent_of_send (sent : ledger.send? block = some later) {other : Pending} :
    other ∈ later.sent ↔ other ∈ ledger.sent ∨ other = block := by
  rw [(send_inv sent).2, List.mem_append, List.mem_singleton]

/-- Scheduling a block binds its name and nothing else. -/
theorem names_of_send (sent : ledger.send? block = some later) :
    later.names = ledger.names ++ [block.name] := by
  rw [(send_inv sent).2, names, names, List.map_append, List.map_singleton]

theorem names_nodup_of_send (sent : ledger.send? block = some later)
    (distinct : ledger.names.Nodup) : later.names.Nodup := by
  rw [names_of_send sent]
  refine List.nodup_append.2 ⟨distinct, by simp, ?_⟩
  intro name member other same
  rw [List.mem_singleton.1 same]
  rintro rfl
  exact (send_inv sent).1 member

theorem sendAll_inv {blocks : List Pending} (sent : ledger.sendAll? blocks = some later) :
    later = { ledger with sent := ledger.sent ++ blocks } := by
  induction blocks generalizing ledger with
  | nil =>
    cases sent
    rw [List.append_nil]
  | cons block rest ih =>
    obtain ⟨between, first, others⟩ := Option.bind_eq_some_iff.1 sent
    rw [ih others, (send_inv first).2, List.append_assoc, List.singleton_append]

theorem names_of_sendAll {blocks : List Pending} (sent : ledger.sendAll? blocks = some later) :
    later.names = ledger.names ++ blocks.map Pending.name := by
  rw [sendAll_inv sent, names, names, List.map_append]

/-- No block that is sent had a name that was bound before. -/
theorem fresh_of_sendAll {blocks : List Pending}
    (sent : ledger.sendAll? blocks = some later) : ∀ block ∈ blocks, block.name ∉ ledger.names := by
  induction blocks generalizing ledger with
  | nil => nofun
  | cons block rest ih =>
    obtain ⟨between, first, others⟩ := Option.bind_eq_some_iff.1 sent
    rw [List.forall_mem_cons]
    refine ⟨(send_inv first).1, fun other member before => ih others other member ?_⟩
    rw [names_of_send first]
    exact List.mem_append_left _ before

/-- No promise is dropped as long as nobody else has claimed a name that may be claimed. -/
theorem sendAll_of_keepAll {promises : List Promise}
    (single : promises.Pairwise fun first second =>
      first.unlessBound = false ∨ second.unlessBound = false)
    (unclaimed : ∀ promise ∈ promises, promise.unlessBound = true →
      promise.block.name ∉ ledger.names ∧
        ∀ other ∈ promises, other.unlessBound = false → other.block.name ≠ promise.block.name)
    (kept : ledger.keepAll? promises = some later) :
    ledger.sendAll? (promises.map Promise.block) = some later := by
  induction promises generalizing ledger with
  | nil => exact kept
  | cons promise rest ih =>
    obtain ⟨between, first, others⟩ := Option.bind_eq_some_iff.1 kept
    obtain ⟨alone, single⟩ := List.pairwise_cons.1 single
    have unowned : (promise.unlessBound && ledger.isBound promise.block.name) = false := by
      cases may : promise.unlessBound with
      | false => rfl
      | true =>
        exact isBound_eq_false_iff.2 (unclaimed promise (List.mem_cons_self ..) may).1
    have sent : ledger.send? promise.block = some between := by
      rwa [keep?, unowned, if_neg Bool.false_ne_true] at first
    rw [List.map_cons, sendAll?, sent]
    apply ih single _ others
    intro later member may
    obtain ⟨free, apart⟩ := unclaimed later (List.mem_cons_of_mem _ member) may
    refine ⟨?_, fun other below => apart other (List.mem_cons_of_mem _ below)⟩
    rw [names_of_send sent, List.mem_append, List.mem_singleton]
    rintro (before | same)
    · exact free before
    · rcases alone later member with firm | firm
      · exact apart promise (List.mem_cons_self ..) firm same.symm
      · rw [may] at firm
        cases firm

end Ledger

/-- Every block that is scheduled from one ledger to the other has the property. -/
def Sends (holds : Pending → Prop) (ledger later : Ledger) : Prop :=
  ∀ block ∈ later.sent, block ∈ ledger.sent ∨ holds block

namespace Sends

variable {holds also : Pending → Prop} {ledger between later : Ledger}

theorem none (same : later.sent = ledger.sent) : Sends holds ledger later :=
  fun _ member => .inl (same ▸ member)

theorem imp (sends : Sends holds ledger later) (more : ∀ block, holds block → also block) :
    Sends also ledger later :=
  fun block member => (sends block member).imp_right (more block)

theorem since (same : between.sent = ledger.sent) (sends : Sends holds between later) :
    Sends holds ledger later :=
  fun block member => (sends block member).imp_left fun before => same ▸ before

theorem trans (first : Sends holds ledger between) (second : Sends holds between later) :
    Sends holds ledger later :=
  fun block member => (second block member).elim (first block) .inr

theorem ofSend {block : Pending} (sent : ledger.send? block = some later) (here : holds block) :
    Sends holds ledger later := by
  intro other member
  refine ((Ledger.mem_sent_of_send sent).1 member).imp_right fun same => ?_
  rw [same]
  exact here

theorem ofSendAll {blocks : List Pending} (sent : ledger.sendAll? blocks = some later)
    (each : ∀ block ∈ blocks, holds block) : Sends holds ledger later := by
  intro block member
  rw [Ledger.sendAll_inv sent, List.mem_append] at member
  exact member.imp_right (each block)

/-- After a branch, only the code that follows can be scheduled. -/
theorem settle {after : Successor} {following : Continuation Stmt} {fallThrough : String}
    (settles : ledger.settle? after following fallThrough = some later)
    (here : ∀ name, after = .fresh name → holds ⟨following, name, fallThrough⟩) :
    Sends holds ledger later := by
  cases after with
  | fresh name => exact ofSend settles (here name rfl)
  | next | fallThrough =>
    cases settles
    exact none rfl

end Sends

/-- What is left to place after a branch. -/
def Successor.leftover (after : Successor) (following : Continuation Stmt) : Continuation Stmt :=
  match after with
  | .fresh _ => .empty
  | _ => following

/-- Whatever is left to place followed the branch. -/
theorem remaining_leftover_subset (after : Successor) (following : Continuation Stmt) :
    (after.leftover following).remaining ⊆ following.remaining := by
  cases after with
  | fresh name => exact List.nil_subset _
  | next | fallThrough => exact List.Subset.refl _

/-- The check at the end of a `do` loop goes back to the loop as long as its condition holds. -/
def loopCheck (condition : Expr) (loopName : String) : Stmt := .ifThen condition [.goto loopName]

/-- The layout of a loop at the start of the block with the given name. -/
def layout (stem : String) (head : LoopHead) (body : List Stmt) (loopName : String)
    (following : Continuation Stmt) (fallThrough : String) (ledger : Ledger) :
    LoopPlan × Ledger :=
  match head with
  | .whileHead condition =>
    let (after, ledger) := ledger.successor stem following.remaining fallThrough
    (⟨[exitGuard after.name condition], ⟨some after.name, loopName⟩,
      after.promises following fallThrough⟩, ledger)
  | .doHead condition =>
    let conditionLabel := ledger.upcoming stem
    if containsBreak body then
      let (after, ledger) := ledger.mint.successor stem following.remaining fallThrough
      (⟨[], ⟨some after.name, conditionLabel⟩, after.promises following fallThrough ++
        [⟨⟨.ofBlock [loopCheck condition loopName], conditionLabel, after.name⟩, false⟩]⟩, ledger)
    else
      (⟨[], ⟨none, conditionLabel⟩,
        [⟨⟨following.push ⟨[loopCheck condition loopName], 0, false⟩, conditionLabel,
          fallThrough⟩, false⟩]⟩, ledger.mint)
  | .forHead _ condition iterator =>
    let (iteratorLabel, ledger) := ledger.stepLabel stem loopName iterator
    let (after, ledger) := ledger.successor stem following.remaining fallThrough
    (⟨(condition.map (exitGuard after.name)).toList, ⟨some after.name, iteratorLabel⟩,
      (iterator.toList.map fun iterator =>
        ⟨⟨.ofBlock [.expression iterator, .goto loopName], iteratorLabel, loopName⟩, false⟩) ++
      after.promises following fallThrough⟩, ledger)

/-- The ledger tells what the run has done, with so many blocks taken off its queue. -/
structure Tracks (stem : String) (done : Nat) (run : Run) (ledger : Ledger) : Prop where
  names : run.schedule.registry.names = ledger.names.reverse
  queue : run.schedule.queue = ledger.sent.drop done
  mint : run.mint = ⟨stem, ledger.minted⟩
  started : done ≤ ledger.sent.length
  moved : Journal.told Journal.Entry.movedTo run.journal = ledger.moved
  inlined : Journal.told Journal.Entry.inlinedAt run.journal = ledger.inlined
  undropped : Journal.told Journal.Entry.dropped run.journal = []

section Bind

variable {α β : Type} {first : RunM α} {next : α → RunM β} {run middle final : Run}
  {fault : FlattenError}

/-- A step succeeds after another only if both do. -/
theorem RunM.bind_ok {result : β} (success : (first >>= next) run = .ok result final) :
    ∃ value middle, first run = .ok value middle ∧ next value middle = .ok result final := by
  change EStateM.bind first next run = _ at success
  unfold EStateM.bind at success
  split at success
  next value middle first_ok => exact ⟨value, middle, first_ok, success⟩
  next => cases success

/-- A step fails if the first part does, or the second after the first. -/
theorem RunM.bind_error (failure : (first >>= next) run = .error fault final) :
    first run = .error fault final ∨
      ∃ value middle, first run = .ok value middle ∧ next value middle = .error fault final := by
  change EStateM.bind first next run = _ at failure
  unfold EStateM.bind at failure
  split at failure
  next value middle succeeds => exact .inr ⟨value, middle, succeeds, failure⟩
  next other middle fails =>
    cases failure
    exact .inl fails

theorem RunM.bind_of_ok {value : α} (success : first run = .ok value middle) :
    (first >>= next) run = next value middle := by
  change EStateM.bind first next run = _
  rw [EStateM.bind, success]

theorem RunM.bind_of_error (failure : first run = .error fault middle) :
    (first >>= next) run = .error fault middle := by
  change EStateM.bind first next run = _
  rw [EStateM.bind, failure]

/-- What comes second matters only where the first part leads. -/
theorem RunM.bind_congr {first' : RunM α} {next' : α → RunM β} (same : first run = first' run)
    (further : ∀ value middle, first' run = .ok value middle →
      next value middle = next' value middle) :
    (first >>= next) run = (first' >>= next') run := by
  cases ran : first' run with
  | ok value middle =>
    rw [bind_of_ok (same.trans ran), bind_of_ok ran, further value middle ran]
  | error fault middle => rw [bind_of_error (same.trans ran), bind_of_error ran]

theorem get_bind_apply (next : Run → RunM α) (run : Run) :
    (get >>= next : RunM α) run = next run run := rfl

end Bind

/-- The label of the following code depends on its first statement only. -/
theorem labelAfter_eq {following : Continuation Stmt} (inside : following.Inside)
    (fallThrough : String) : labelAfter following fallThrough =
      match following.remaining with
      | [] => pure (.fallThrough fallThrough)
      | first :: _ =>
        match first.ownLabel with
        | some label => pure (.next label)
        | none => do return .fresh (← freshName) := by
  unfold labelAfter
  rw [inside.ahead]
  cases following.remaining with
  | nil => rfl
  | cons first rest => cases first <;> rfl

variable {stem fallThrough : String} {done : Nat} {run final : Run} {ledger : Ledger}

namespace Tracks

theorem isBound (tracks : Tracks stem done run ledger) (name : String) :
    run.isBound name = ledger.isBound name := by
  rw [Run.isBound, Registry.isBound, tracks.names, Ledger.isBound, List.contains_reverse]

theorem note {entry : Journal.Entry} (tracks : Tracks stem done run ledger)
    (quiet : entry.Quiet) : Tracks stem done (run.note entry) ledger where
  names := tracks.names
  queue := tracks.queue
  mint := tracks.mint
  started := tracks.started
  moved := by simpa [Run.note, Journal.told_push, quiet.movedTo] using tracks.moved
  inlined := by simpa [Run.note, Journal.told_push, quiet.inlinedAt] using tracks.inlined
  undropped := by simpa [Run.note, Journal.told_push, quiet.dropped] using tracks.undropped

theorem reportEvent {event : Journal.Event} (tracks : Tracks stem done run ledger)
    (success : reportEvent event run = .ok () final)
    (quiet : (Journal.Entry.event event).Quiet := by exact ⟨rfl, rfl, rfl⟩) :
    Tracks stem done final ledger := by
  rw [reportEvent_apply] at success
  cases success
  exact tracks.note quiet

theorem move {loopTop : String} (tracks : Tracks stem done run ledger)
    (success : Flatten.reportEvent (.loopMoved loopTop) run = .ok () final) :
    Tracks stem done final (ledger.move loopTop) := by
  rw [reportEvent_apply] at success
  cases success
  exact {
    names := tracks.names
    queue := tracks.queue
    mint := tracks.mint
    started := tracks.started
    moved := (Journal.told_push ..).trans (congrArg (· ++ [loopTop]) tracks.moved)
    inlined := (Journal.told_push ..).trans ((List.append_nil _).trans tracks.inlined)
    undropped := (Journal.told_push ..).trans ((List.append_nil _).trans tracks.undropped) }

theorem inline {loopName : String} {event : Journal.Event} (tracks : Tracks stem done run ledger)
    (success : Flatten.reportEvent event run = .ok () final)
    (said : (Journal.Entry.event event).inlinedAt = some loopName) :
    Tracks stem done final (ledger.inline loopName) := by
  rw [reportEvent_apply] at success
  cases success
  have others : (Journal.Entry.event event).movedTo = none ∧
      (Journal.Entry.event event).dropped = none := by
    cases event <;> first | exact ⟨rfl, rfl⟩ | cases said
  exact {
    names := tracks.names
    queue := tracks.queue
    mint := tracks.mint
    started := tracks.started
    moved := by simpa [Run.note, Journal.told_push, others.1, Ledger.inline] using tracks.moved
    inlined := by
      simpa [Run.note, Journal.told_push, said, Ledger.inline] using tracks.inlined
    undropped := by simpa [Run.note, Journal.told_push, others.2] using tracks.undropped }

theorem freshName {name : String} (tracks : Tracks stem done run ledger)
    (success : freshName run = .ok name final) :
    name = ledger.upcoming stem ∧ Tracks stem done final ledger.mint := by
  rw [freshName_apply, tracks.mint] at success
  cases success
  exact ⟨rfl, { tracks with mint := rfl }⟩

/-- A block that has something to flatten goes into the ledger. -/
theorem enqueue {block : Pending} (tracks : Tracks stem done run ledger)
    (more : block.continuation.isEmpty = false)
    (success : enqueue block run = .ok () final) :
    ∃ later, ledger.send? block = some later ∧ Tracks stem done final later := by
  have bound := tracks.isBound block.name
  unfold Flatten.enqueue Schedule.enqueue Registry.bind? at success
  rw [Run.isBound] at bound
  rw [bound] at success
  cases taken : ledger.isBound block.name with
  | true => simp [taken] at success
  | false =>
    simp only [taken, more, Bool.false_eq_true, if_false] at success
    cases success
    refine ⟨{ ledger with sent := ledger.sent ++ [block] }, by simp [Ledger.send?, taken], ?_⟩
    refine Tracks.note ⟨?_, ?_, tracks.mint, ?_, tracks.moved, tracks.inlined, tracks.undropped⟩
      ⟨rfl, rfl, rfl⟩
    · simp [Ledger.names, tracks.names]
    · simp [tracks.queue, List.drop_append_of_le_length tracks.started]
    · simpa using Nat.le_succ_of_le tracks.started

theorem labelAfter {following : Continuation Stmt} {after : Successor}
    (inside : following.Inside) (tracks : Tracks stem done run ledger)
    (success : labelAfter following fallThrough run = .ok after final) :
    ∃ later, ledger.successor stem following.remaining fallThrough = (after, later) ∧
      Tracks stem done final later := by
  rw [labelAfter_eq inside] at success
  unfold Ledger.successor
  cases remains : following.remaining with
  | nil =>
    simp only [remains] at success ⊢
    cases success
    exact ⟨ledger, rfl, tracks⟩
  | cons first rest =>
    simp only [remains] at success ⊢
    cases own : first.ownLabel with
    | some label =>
      simp only [own] at success ⊢
      cases success
      exact ⟨ledger, rfl, tracks⟩
    | none =>
      simp only [own] at success ⊢
      obtain ⟨name, middle, minted, result⟩ := RunM.bind_ok success
      obtain ⟨rfl, tracks⟩ := tracks.freshName minted
      cases result
      exact ⟨ledger.mint, rfl, tracks⟩

theorem stepLabel {loopName label : String} {iterator : Option Expr}
    (tracks : Tracks stem done run ledger)
    (success : (match iterator with
      | some _ => Flatten.freshName
      | none => pure loopName : RunM String) run = .ok label final) :
    ∃ later, ledger.stepLabel stem loopName iterator = (label, later) ∧
      Tracks stem done final later := by
  cases iterator with
  | none =>
    cases success
    exact ⟨ledger, rfl, tracks⟩
  | some iterator =>
    obtain ⟨rfl, tracks⟩ := tracks.freshName success
    exact ⟨ledger.mint, rfl, tracks⟩

theorem planLoop {head : LoopHead} {body : List Stmt} {loopName : String}
    {following : Continuation Stmt} {plan : LoopPlan} (inside : following.Inside)
    (tracks : Tracks stem done run ledger)
    (success : planLoop head body loopName following fallThrough run = .ok plan final) :
    ∃ later, layout stem head body loopName following fallThrough ledger = (plan, later) ∧
      Tracks stem done final (later.inline loopName) := by
  cases head with
  | whileHead condition =>
    obtain ⟨after, middle, chosen, success⟩ := RunM.bind_ok success
    obtain ⟨later, same, tracks⟩ := tracks.labelAfter inside chosen
    obtain ⟨_, reported, event, success⟩ := RunM.bind_ok success
    cases success
    exact ⟨later, by rw [layout, same], tracks.inline event rfl⟩
  | doHead condition =>
    obtain ⟨conditionLabel, middle, minted, success⟩ := RunM.bind_ok success
    obtain ⟨rfl, tracks⟩ := tracks.freshName minted
    cases breaks : containsBreak body with
    | true =>
      simp only [breaks, if_true] at success
      obtain ⟨after, middle, chosen, success⟩ := RunM.bind_ok success
      obtain ⟨later, same, tracks⟩ := tracks.labelAfter inside chosen
      obtain ⟨_, reported, event, success⟩ := RunM.bind_ok success
      cases success
      exact ⟨later, by simp only [layout, breaks, if_true, same, loopCheck],
        tracks.inline event rfl⟩
    | false =>
      simp only [breaks, Bool.false_eq_true, if_false] at success
      obtain ⟨_, reported, event, success⟩ := RunM.bind_ok success
      cases success
      exact ⟨ledger.mint, by simp only [layout, breaks, Bool.false_eq_true, if_false, loopCheck],
        tracks.inline event rfl⟩
  | forHead init condition iterator =>
    obtain ⟨iteratorLabel, middle, labeled, success⟩ := RunM.bind_ok success
    obtain ⟨between, step, tracks⟩ := tracks.stepLabel labeled
    obtain ⟨after, middle, chosen, success⟩ := RunM.bind_ok success
    obtain ⟨later, same, tracks⟩ := tracks.labelAfter inside chosen
    obtain ⟨_, reported, event, success⟩ := RunM.bind_ok success
    cases success
    exact ⟨later, by simp only [layout, step, same], tracks.inline event rfl⟩

theorem keep {promise : Promise} (tracks : Tracks stem done run ledger)
    (more : promise.block.continuation.isEmpty = false)
    (success : keep promise run = .ok () final) :
    ∃ later, ledger.keep? promise = some later ∧ Tracks stem done final later := by
  obtain ⟨same, middle, got, success⟩ := RunM.bind_ok success
  cases got
  rw [tracks.isBound] at success
  unfold Ledger.keep?
  by_cases owned : (promise.unlessBound && ledger.isBound promise.block.name) = true
  · simp only [if_pos owned] at success ⊢
    cases success
    exact ⟨ledger, rfl, tracks⟩
  · simp only [if_neg owned] at success ⊢
    exact tracks.enqueue more success

theorem keepAll {promises : List Promise} (tracks : Tracks stem done run ledger)
    (more : ∀ promise ∈ promises, promise.block.continuation.isEmpty = false)
    (success : promises.forM Flatten.keep run = .ok () final) :
    ∃ later, ledger.keepAll? promises = some later ∧ Tracks stem done final later := by
  induction promises generalizing run ledger with
  | nil =>
    cases success
    exact ⟨ledger, rfl, tracks⟩
  | cons promise rest ih =>
    obtain ⟨_, middle, kept, others⟩ := RunM.bind_ok success
    obtain ⟨between, sent, tracks⟩ := tracks.keep (more promise (List.mem_cons_self ..)) kept
    obtain ⟨later, all, tracks⟩ :=
      ih tracks (fun other member => more other (List.mem_cons_of_mem _ member)) others
    exact ⟨later, by simp [Ledger.keepAll?, sent, all], tracks⟩

end Tracks

end Unnest.Flatten
