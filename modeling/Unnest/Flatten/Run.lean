import Unnest.Flatten.Schedule
import Unnest.Flatten.Successor
import Unnest.Journal.Basic

/-! The state of one run of flattening, and the steps that change it. -/

namespace Unnest.Flatten

open Script

structure Run where
  schedule : Schedule
  mint : Mint
  journal : Journal

/-- Steps of a run. A failing step keeps the state, and with it the journal. -/
abbrev RunM := EStateM FlattenError Run

namespace Run

def start (options : Options) (journal : Journal) : Run :=
  ⟨.empty, .start options.anonymousPrefix, journal⟩

def isBound (run : Run) (name : String) : Bool := run.schedule.registry.isBound name

def note (entry : Journal.Entry) (run : Run) : Run :=
  { run with journal := run.journal.push entry }

end Run

/-- Report an event. -/
def reportEvent (event : Journal.Event) : RunM Unit := modify (Run.note (.event event))

/-- A name that no block has yet. -/
def freshName : RunM String := fun run =>
  let (name, mint) := run.mint.next
  .ok name { run with mint }

/-- Schedule a block. -/
def enqueue (block : Pending) : RunM Unit := fun run =>
  match run.schedule.enqueue block with
  | .error fault => .error fault run
  | .ok (event, schedule) => .ok () (Run.note (.event event) { run with schedule })

/-- Take the block that has waited longest. -/
def takeNext : RunM (Option Pending) := fun run =>
  match run.schedule.next with
  | none => .ok none run
  | some (block, schedule) => .ok (some block) { run with schedule }

theorem reportEvent_apply (event : Journal.Event) (run : Run) :
    reportEvent event run = .ok () (run.note (.event event)) := rfl

theorem freshName_apply (run : Run) :
    freshName run = .ok (Mint.nameAt run.mint.stem run.mint.minted)
      { run with mint := ⟨run.mint.stem, run.mint.minted + 1⟩ } := rfl

/-- A name that is bound cannot be scheduled again, and the state stays as it was. -/
theorem enqueue_of_bound {block : Pending} {run : Run} (bound : run.isBound block.name = true) :
    enqueue block run = .error (.duplicateLabel block.name) run := by
  have taken : run.schedule.registry.isBound block.name = true := bound
  simp only [enqueue, Schedule.enqueue, Registry.bind?, taken, if_true]

theorem takeNext_of_empty {run : Run} (nothing : run.schedule.queue = []) :
    takeNext run = .ok none run := by
  simp only [takeNext, Schedule.next, nothing]

/-- The label of the code that follows a construct: its own if it starts with a labeled
statement, a fresh one otherwise, and the fall-through label if nothing follows. -/
def labelAfter (following : Continuation Stmt) (fallThrough : String) : RunM Successor :=
  match following.peek.bind Frame.current with
  | some (.labeled label _) => return .next label
  | some _ => return .fresh (← freshName)
  | none => return .fallThrough fallThrough

/-- A block promised by a construct that is still being worked on. -/
structure Promise where
  block : Pending
  /-- Somebody else may have scheduled the block in the meantime. -/
  unlessBound : Bool

/-- The promise that comes with a label: the code that follows is scheduled under it,
unless nothing follows. -/
def Successor.promises (after : Successor) (following : Continuation Stmt)
    (fallThrough : String) : List Promise :=
  match after with
  | .fresh name => [⟨⟨following, name, fallThrough⟩, false⟩]
  | .next name => [⟨⟨following, name, fallThrough⟩, true⟩]
  | .fallThrough _ => []

/-- Schedule a promised block. -/
def keep (promise : Promise) : RunM Unit := do
  let run ← get
  if promise.unlessBound && run.isBound promise.block.name then pure ()
  else enqueue promise.block

end Unnest.Flatten
