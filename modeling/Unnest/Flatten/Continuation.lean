/-! What remains to be run, as a stack of positions in blocks, the innermost first. Every
operation gives a new value, so one stack can be queued while another that shares its
tail is worked on. -/

namespace Unnest.Flatten

/-- A position in a block: the item at the index, and everything after it. -/
structure Frame (α : Type) where
  block : List α
  index : Nat
  /-- The `for` loop at the index has already run its initializer. -/
  afterInit : Bool := false

namespace Frame

variable {α : Type}

/-- The item at the position. -/
def current (frame : Frame α) : Option α := frame.block[frame.index]?

/-- The items from the position to the end of the block. -/
def remaining (frame : Frame α) : List α := frame.block.drop frame.index

/-- The position after this one in the same block, if there is one. -/
def following (frame : Frame α) : Option (Frame α) :=
  if frame.index + 1 < frame.block.length then some ⟨frame.block, frame.index + 1, false⟩
  else none

/-- The same position with its initializer consumed. -/
def withInitConsumed (frame : Frame α) : Frame α := { frame with afterInit := true }

end Frame

structure Continuation (α : Type) where
  frames : List (Frame α)

namespace Continuation

variable {α : Type}

def empty : Continuation α := ⟨[]⟩

/-- Push a frame. One past the end of its block resumes nothing and is left out. -/
def push (continuation : Continuation α) (frame : Frame α) : Continuation α :=
  if frame.index < frame.block.length then ⟨frame :: continuation.frames⟩ else continuation

/-- Run a block from its first item. -/
def ofBlock (block : List α) : Continuation α := empty.push ⟨block, 0, false⟩

/-- Push the position after this one, if there is one. -/
def pushFollowing (continuation : Continuation α) (frame : Frame α) : Continuation α :=
  match frame.following with
  | some next => continuation.push next
  | none => continuation

/-- The top frame and the rest. -/
def pop : Continuation α → Option (Frame α × Continuation α)
  | ⟨[]⟩ => none
  | ⟨frame :: frames⟩ => some (frame, ⟨frames⟩)

def peek (continuation : Continuation α) : Option (Frame α) := continuation.frames.head?

def isEmpty (continuation : Continuation α) : Bool := continuation.frames.isEmpty

def length (continuation : Continuation α) : Nat := continuation.frames.length

/-- Everything that remains, in the order in which it is run. -/
def remaining (continuation : Continuation α) : List α :=
  continuation.frames.flatMap Frame.remaining

theorem isEmpty_push (continuation : Continuation α) {frame : Frame α}
    (inside : frame.index < frame.block.length) : (continuation.push frame).isEmpty = false := by
  simp [push, inside, isEmpty]

/-- The index and the block length of each frame. -/
def describe (continuation : Continuation α) : String :=
  "[" ++ ", ".intercalate (continuation.frames.map fun frame =>
    "(" ++ toString frame.index ++ ", " ++ toString frame.block.length ++ ")") ++ "]"

end Continuation

end Unnest.Flatten
