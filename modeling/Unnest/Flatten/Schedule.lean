import Unnest.Flatten.Continuation
import Unnest.Flatten.Error
import Unnest.Flatten.Names
import Unnest.Journal.Event

/-! The queue of blocks that have a name but no statements yet, first in, first out. -/

namespace Unnest.Flatten

open Script

/-- A block still to be flattened. -/
structure Pending where
  continuation : Continuation Stmt
  name : String
  /-- Where control goes when the continuation runs out. -/
  fallThrough : String

structure Schedule where
  queue : List Pending
  registry : Registry

namespace Schedule

def empty : Schedule := ⟨[], .empty⟩

/-- Bind the block's name and queue the block. The name stays bound for good, also when
there is nothing to flatten, in which case the block is not queued. -/
def enqueue (block : Pending) (schedule : Schedule) :
    Except FlattenError (Journal.Event × Schedule) :=
  match schedule.registry.bind? block.name with
  | none => .error (.duplicateLabel block.name)
  | some registry =>
    if block.continuation.isEmpty then
      .ok (.droppedEmpty block.name, { schedule with registry })
    else
      .ok (.scheduled block.name block.fallThrough block.continuation.length,
        ⟨schedule.queue ++ [block], registry⟩)

/-- The block that has waited longest, and the schedule without it. -/
def next (schedule : Schedule) : Option (Pending × Schedule) :=
  match schedule.queue with
  | [] => none
  | first :: others => some (first, { schedule with queue := others })

/-- How many blocks wait. -/
def pending (schedule : Schedule) : Nat := schedule.queue.length

/-- How many names are bound. -/
def registered (schedule : Schedule) : Nat := schedule.registry.size

end Schedule

end Unnest.Flatten
