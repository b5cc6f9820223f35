import Mathlib
import Unnest.Flatten.Continuation

/-! What a continuation still has to run. Every frame that a push leaves behind is inside
its block, so a continuation with frames always has a statement to go on with. -/

namespace Unnest.Flatten

variable {α : Type}

namespace Continuation

/-- Every frame is at a position inside its block. -/
def Inside (continuation : Continuation α) : Prop :=
  ∀ frame ∈ continuation.frames, frame.index < frame.block.length

theorem inside_empty : (empty : Continuation α).Inside := by
  intro frame member
  cases member

theorem inside_push {continuation : Continuation α} (inside : continuation.Inside)
    (frame : Frame α) : (continuation.push frame).Inside := by
  unfold push
  split
  next bound =>
    intro other member
    rcases List.mem_cons.1 member with same | deeper
    · exact same ▸ bound
    · exact inside other deeper
  next => exact inside

theorem inside_ofBlock (block : List α) : (ofBlock block).Inside :=
  inside_push inside_empty _

theorem inside_pushFollowing {continuation : Continuation α} (inside : continuation.Inside)
    (frame : Frame α) : (continuation.pushFollowing frame).Inside := by
  unfold pushFollowing
  split
  next following _ => exact inside_push inside following
  next => exact inside

/-- No frame resumes a loop behind its initializer. -/
def Whole (continuation : Continuation α) : Prop :=
  ∀ frame ∈ continuation.frames, frame.afterInit = false

theorem whole_push {continuation : Continuation α} (whole : continuation.Whole) {frame : Frame α}
    (plain : frame.afterInit = false) : (continuation.push frame).Whole := by
  unfold push
  split
  next => exact List.forall_mem_cons.2 ⟨plain, whole⟩
  next => exact whole

theorem whole_ofBlock (block : List α) : (ofBlock block).Whole :=
  whole_push (List.forall_mem_nil _) rfl

theorem whole_pushFollowing {continuation : Continuation α} (whole : continuation.Whole)
    (frame : Frame α) : (continuation.pushFollowing frame).Whole := by
  unfold pushFollowing Frame.following
  by_cases more : frame.index + 1 < frame.block.length
  · simp only [if_pos more]
    exact whole_push whole rfl
  · rw [if_neg more]
    exact whole

@[simp] theorem remaining_empty : (empty : Continuation α).remaining = [] := rfl

@[simp] theorem remaining_push (continuation : Continuation α) (frame : Frame α) :
    (continuation.push frame).remaining = frame.remaining ++ continuation.remaining := by
  unfold push
  split
  next => rfl
  next past =>
    rw [Frame.remaining, List.drop_eq_nil_of_le (Nat.le_of_not_lt past), List.nil_append]

/-- At the start of a block all of it is ahead. -/
theorem remaining_push_block (continuation : Continuation α) (block : List α) (afterInit : Bool) :
    (continuation.push ⟨block, 0, afterInit⟩).remaining = block ++ continuation.remaining := by
  rw [remaining_push, Frame.remaining, List.drop_zero]

@[simp] theorem remaining_ofBlock (block : List α) : (ofBlock block).remaining = block := by
  simp [ofBlock, Frame.remaining]

@[simp] theorem remaining_pushFollowing (continuation : Continuation α) (frame : Frame α) :
    (continuation.pushFollowing frame).remaining =
      frame.block.drop (frame.index + 1) ++ continuation.remaining := by
  unfold pushFollowing Frame.following
  by_cases more : frame.index + 1 < frame.block.length
  · simp only [if_pos more, remaining_push, Frame.remaining]
  · rw [if_neg more, List.drop_eq_nil_of_le (Nat.le_of_not_lt more), List.nil_append]

/-- The continuation goes on with the statement at the frame, and the rest comes later. -/
structure At (continuation : Continuation α) (frame : Frame α) (rest : Continuation α)
    (current : α) : Prop where
  popped : continuation.pop = some (frame, rest)
  here : frame.current = some current

namespace At

variable {continuation rest : Continuation α} {frame : Frame α} {current : α}

theorem frames (met : continuation.At frame rest current) :
    continuation.frames = frame :: rest.frames := by
  obtain ⟨popped, _⟩ := met
  obtain ⟨_ | ⟨first, others⟩⟩ := continuation <;> simp [pop] at popped
  obtain ⟨rfl, rfl⟩ := popped
  rfl

theorem remaining_frame (met : continuation.At frame rest current) :
    frame.remaining = current :: frame.block.drop (frame.index + 1) := by
  obtain ⟨bound, value⟩ := List.getElem?_eq_some_iff.1 met.here
  rw [Frame.remaining, List.drop_eq_getElem_cons bound, value]

theorem remaining (met : continuation.At frame rest current) :
    continuation.remaining = current :: (rest.pushFollowing frame).remaining := by
  rw [remaining_pushFollowing, ← List.cons_append, ← met.remaining_frame,
    Continuation.remaining, met.frames]
  rfl

/-- Pushing the frame back gives the continuation again. -/
theorem push_back (met : continuation.At frame rest current) : rest.push frame = continuation := by
  obtain ⟨bound, _⟩ := List.getElem?_eq_some_iff.1 met.here
  have same := met.frames
  obtain ⟨frames⟩ := continuation
  rw [push, if_pos bound]
  exact congrArg Continuation.mk same.symm

theorem unique {other : Frame α} {others : Continuation α} {value : α}
    (met : continuation.At frame rest current) (also : continuation.At other others value) :
    other = frame ∧ others = rest ∧ value = current := by
  cases met.popped.symm.trans also.popped
  exact ⟨rfl, rfl, Option.some.inj (also.here.symm.trans met.here)⟩

theorem inside_rest (met : continuation.At frame rest current) (inside : continuation.Inside) :
    rest.Inside := by
  intro other member
  exact inside other (met.frames ▸ List.mem_cons_of_mem _ member)

theorem inside_following (met : continuation.At frame rest current)
    (inside : continuation.Inside) : (rest.pushFollowing frame).Inside :=
  inside_pushFollowing (met.inside_rest inside) frame

end At

/-- A continuation inside its blocks is used up, or goes on with a statement. -/
theorem Inside.cases {continuation : Continuation α} (inside : continuation.Inside) :
    continuation.pop = none ∨ ∃ frame rest current, continuation.At frame rest current := by
  obtain ⟨_ | ⟨frame, frames⟩⟩ := continuation
  · exact .inl rfl
  · have bound : frame.index < frame.block.length := inside frame (List.mem_cons_self ..)
    exact .inr ⟨frame, ⟨frames⟩, frame.block[frame.index], rfl, List.getElem?_eq_getElem bound⟩

theorem remaining_of_pop_none {continuation : Continuation α}
    (nothing : continuation.pop = none) : continuation.remaining = [] := by
  obtain ⟨_ | ⟨frame, frames⟩⟩ := continuation
  · rfl
  · cases nothing

theorem isEmpty_of_at {continuation rest : Continuation α} {frame : Frame α} {current : α}
    (met : continuation.At frame rest current) : continuation.isEmpty = false := by
  rw [isEmpty, met.frames]
  rfl

/-- When something remains, its first statement is met next, and the others are behind it. -/
theorem Inside.at_of_remaining {continuation : Continuation α} {first : α} {others : List α}
    (inside : continuation.Inside) (remains : continuation.remaining = first :: others) :
    ∃ frame rest, continuation.At frame rest first ∧
      (rest.pushFollowing frame).remaining = others := by
  rcases inside.cases with nothing | ⟨frame, rest, current, met⟩
  · cases (remaining_of_pop_none nothing).symm.trans remains
  · cases met.remaining.symm.trans remains
    exact ⟨frame, rest, met, rfl⟩

/-- The next statement is the first of what remains. -/
theorem Inside.ahead {continuation : Continuation α} (inside : continuation.Inside) :
    continuation.peek.bind Frame.current = continuation.remaining.head? := by
  rcases inside.cases with nothing | ⟨frame, rest, current, met⟩
  · rw [remaining_of_pop_none nothing]
    obtain ⟨_ | ⟨frame, frames⟩⟩ := continuation
    · rfl
    · cases nothing
  · rw [met.remaining, peek, met.frames]
    exact met.here

theorem isEmpty_eq_false_iff {continuation : Continuation α} (inside : continuation.Inside) :
    continuation.isEmpty = false ↔ continuation.remaining ≠ [] := by
  rcases inside.cases with nothing | ⟨frame, rest, current, met⟩
  · rw [remaining_of_pop_none nothing]
    obtain ⟨_ | ⟨frame, frames⟩⟩ := continuation
    · simp [isEmpty]
    · cases nothing
  · simp [isEmpty_of_at met, met.remaining]

end Continuation

end Unnest.Flatten
