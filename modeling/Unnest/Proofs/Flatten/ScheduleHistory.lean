import Mathlib
import Unnest.Flatten.Run

/-! What a schedule does over any sequence of requests. A name is bound by the first request that
schedules a block under it and stays bound for good, and the blocks that are handed out and those
that still wait are the ones that were scheduled with something to flatten, in their order. -/

namespace Unnest.Flatten
open Script

/-- What can be asked of a schedule. -/
inductive Request where
  | enqueue (block : Pending)
  | next

/-- What comes of a request. -/
inductive Outcome where
  | accepted (block : Pending)
  | refused (fault : FlattenError)
  | handed (block : Pending)
  | nothing

/-- The outcome of a request in a state of a run, and the state after it. -/
def Request.answer (request : Request) (run : Run) : Outcome × Run :=
  match request with
  | .enqueue block =>
    match Flatten.enqueue block run with
    | .ok () later => (.accepted block, later)
    | .error fault later => (.refused fault, later)
  | .next =>
    match takeNext run with
    | .ok (some block) later => (.handed block, later)
    | .ok none later => (.nothing, later)
    | .error fault later => (.refused fault, later)

/-- The outcomes of the requests, one after the other, and the state after the last. -/
def answerAll : List Request → Run → List Outcome × Run
  | [], run => ([], run)
  | request :: rest, run =>
    let (outcome, middle) := request.answer run
    let (outcomes, final) := answerAll rest middle
    (outcome :: outcomes, final)

def Outcome.acceptedBlock : Outcome → Option Pending
  | .accepted block => some block
  | _ => none

def Outcome.handedBlock : Outcome → Option Pending
  | .handed block => some block
  | _ => none

/-- The blocks that were scheduled, in order. -/
def accepted (outcomes : List Outcome) : List Pending := outcomes.filterMap Outcome.acceptedBlock

/-- The blocks that were handed out, in order. -/
def handed (outcomes : List Outcome) : List Pending := outcomes.filterMap Outcome.handedBlock

/-- The blocks that have something to flatten. -/
def filled (blocks : List Pending) : List Pending :=
  blocks.filter fun block => !block.continuation.isEmpty

@[simp] theorem accepted_append (past more : List Outcome) :
    accepted (past ++ more) = accepted past ++ accepted more := List.filterMap_append ..

@[simp] theorem handed_append (past more : List Outcome) :
    handed (past ++ more) = handed past ++ handed more := List.filterMap_append ..

@[simp] theorem filled_append (past more : List Pending) :
    filled (past ++ more) = filled past ++ filled more := List.filter_append ..

/-- The state of a run that began with an empty schedule tells the outcomes so far. -/
structure History (outcomes : List Outcome) (run : Run) : Prop where
  /-- The names that were accepted are the ones that are bound, the latest first. -/
  names : run.schedule.registry.names = ((accepted outcomes).map Pending.name).reverse
  distinct : ((accepted outcomes).map Pending.name).Nodup
  /-- Nothing is lost, and nothing overtakes. -/
  order : handed outcomes ++ run.schedule.queue = filled (accepted outcomes)

namespace History

variable {outcomes : List Outcome} {run later : Run} {block : Pending}

theorem start (mint : Mint) (journal : Journal) : History [] ⟨.empty, mint, journal⟩ where
  names := rfl
  distinct := List.nodup_nil
  order := rfl

theorem isBound_iff (history : History outcomes run) (name : String) :
    run.isBound name = true ↔ name ∈ (accepted outcomes).map Pending.name := by
  rw [Run.isBound, Registry.isBound, history.names, List.contains_iff_mem, List.mem_reverse]

/-- Any name that was not accepted before is accepted, and the block waits if it is filled. -/
theorem enqueue_free (history : History outcomes run)
    (free : block.name ∉ (accepted outcomes).map Pending.name) :
    ∃ later, enqueue block run = .ok () later ∧
      later.schedule.registry.names = block.name :: run.schedule.registry.names ∧
      later.schedule.queue = run.schedule.queue ++ filled [block] := by
  have unbound : run.schedule.registry.isBound block.name = false :=
    Bool.eq_false_iff.2 fun bound => free ((history.isBound_iff block.name).1 bound)
  unfold enqueue Schedule.enqueue Registry.bind?
  cases empty : block.continuation.isEmpty <;> simp [unbound, empty, filled, Run.note]

/-- A block is refused exactly when its name was accepted before. -/
theorem enqueue_cases (history : History outcomes run) (block : Pending) :
    block.name ∈ (accepted outcomes).map Pending.name ∧
        enqueue block run = .error (.duplicateLabel block.name) run ∨
      block.name ∉ (accepted outcomes).map Pending.name ∧ ∃ later,
        enqueue block run = .ok () later ∧ History (outcomes ++ [.accepted block]) later := by
  by_cases taken : block.name ∈ (accepted outcomes).map Pending.name
  · exact .inl ⟨taken, enqueue_of_bound ((history.isBound_iff block.name).2 taken)⟩
  · obtain ⟨later, success, names, queue⟩ := history.enqueue_free taken
    refine .inr ⟨taken, later, success, ?_, ?_, ?_⟩
    · rw [names, history.names, accepted_append, List.map_append, List.reverse_append]
      rfl
    · rw [accepted_append, List.map_append]
      exact List.nodup_append.2 ⟨history.distinct, List.nodup_singleton _,
        fun name before other last same => taken (List.mem_singleton.1 last ▸ same ▸ before)⟩
    · rw [queue, accepted_append, handed_append, filled_append, ← history.order]
      exact (List.append_assoc ..).symm.trans (by simp [handed, accepted, Outcome.handedBlock,
        Outcome.acceptedBlock])

/-- Outcomes that neither schedule nor hand out a block leave the history as it is. -/
theorem idle (history : History outcomes run) {outcome : Outcome}
    (unscheduled : outcome.acceptedBlock = none) (unmoved : outcome.handedBlock = none) :
    History (outcomes ++ [outcome]) run := by
  have none : accepted [outcome] = [] ∧ handed [outcome] = [] := by
    simp [accepted, handed, unscheduled, unmoved]
  obtain ⟨names, distinct, order⟩ := history
  constructor <;> rw [accepted_append, none.1, List.append_nil]
  · exact names
  · exact distinct
  · rw [handed_append, none.2, List.append_nil, order]

/-- The block that has waited longest is handed out, unless none waits. -/
theorem takeNext_cases (history : History outcomes run) :
    run.schedule.queue = [] ∧ takeNext run = .ok none run ∨
      ∃ block others later, run.schedule.queue = block :: others ∧
        takeNext run = .ok (some block) later ∧ History (outcomes ++ [.handed block]) later := by
  cases waiting : run.schedule.queue with
  | nil => exact .inl ⟨rfl, takeNext_of_empty waiting⟩
  | cons block others =>
    refine .inr ⟨block, others, { run with schedule := { run.schedule with queue := others } }, rfl,
      by simp only [takeNext, Schedule.next, waiting], ?_⟩
    obtain ⟨names, distinct, order⟩ := history
    have unscheduled : accepted [.handed block] = [] := rfl
    constructor <;> rw [accepted_append, unscheduled, List.append_nil]
    · exact names
    · exact distinct
    · rw [← order, waiting, handed_append, List.append_assoc]
      rfl

/-- One more request. -/
theorem step (history : History outcomes run) (request : Request) :
    History (outcomes ++ [(request.answer run).1]) (request.answer run).2 := by
  cases request with
  | enqueue block =>
    rcases history.enqueue_cases block with ⟨_, failure⟩ | ⟨_, later, success, goes⟩
    · rw [Request.answer, failure]
      exact history.idle rfl rfl
    · rw [Request.answer, success]
      exact goes
  | next =>
    rcases history.takeNext_cases with ⟨_, success⟩ | ⟨block, others, later, _, success, goes⟩
    · rw [Request.answer, success]
      exact history.idle rfl rfl
    · rw [Request.answer, success]
      exact goes

/-- Any number of requests. -/
theorem answerAll (history : History outcomes run) (requests : List Request) :
    History (outcomes ++ (answerAll requests run).1) (Flatten.answerAll requests run).2 := by
  induction requests generalizing outcomes run with
  | nil => rwa [Flatten.answerAll, List.append_nil]
  | cons request rest ih =>
    have whole := ih (history.step request)
    rwa [List.append_assoc] at whole

end History

/-- After any requests to an empty schedule, the blocks handed out and those that wait are together
the ones that were scheduled with something to flatten, in their order, and no two of them have the
same name. The next block to schedule is refused exactly when its name was accepted before, which
leaves everything as it was; the next block to hand out is missing exactly when none waits. The bound
names are those that were accepted, each once, and both counts are as the outcomes say. -/
theorem outcomes_of_answerAll (mint : Mint) (journal : Journal) (requests : List Request) :
    let outcomes := (answerAll requests ⟨.empty, mint, journal⟩).1
    let run := (answerAll requests ⟨.empty, mint, journal⟩).2
    let names := (accepted outcomes).map Pending.name
    handed outcomes ++ run.schedule.queue = filled (accepted outcomes) ∧
      ((handed outcomes ++ run.schedule.queue).map Pending.name).Nodup ∧
      (∀ block : Pending,
        (block.name ∈ names → enqueue block run = .error (.duplicateLabel block.name) run) ∧
        (block.name ∉ names → ∃ later, enqueue block run = .ok () later)) ∧
      (match run.schedule.queue with
        | [] => takeNext run = .ok none run
        | block :: _ => ∃ later, takeNext run = .ok (some block) later) ∧
      (∀ name, run.isBound name = true ↔ name ∈ names) ∧
      names.Nodup ∧ run.schedule.registered = names.length ∧
      run.schedule.pending + (handed outcomes).length = (filled (accepted outcomes)).length := by
  intro outcomes run names
  have history : History outcomes run := (History.start mint journal).answerAll requests
  refine ⟨history.order, ?_, fun block => ?_, ?_, history.isBound_iff, history.distinct, ?_, ?_⟩
  · rw [history.order]
    exact history.distinct.sublist (List.filter_sublist.map _)
  · rcases history.enqueue_cases block with ⟨taken, failure⟩ | ⟨free, later, success, _⟩
    · exact ⟨fun _ => failure, fun free => absurd taken free⟩
    · exact ⟨fun taken => absurd taken free, fun _ => ⟨later, success⟩⟩
  · rcases history.takeNext_cases with ⟨none, success⟩ | ⟨block, others, later, some, success, _⟩
    · rw [none]
      exact success
    · rw [some]
      exact ⟨later, success⟩
  · rw [Schedule.registered, Registry.size, history.names, List.length_reverse]
  · rw [← history.order, List.length_append, Schedule.pending, Nat.add_comm]

end Unnest.Flatten
