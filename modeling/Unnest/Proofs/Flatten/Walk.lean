import Unnest.Proofs.Flatten.MergePoints

/-! A continuation walks over what remains in the order of the source, each statement once. This
holds of every continuation that the operations make, and so of every one that a run comes to. -/

namespace Unnest.Flatten
open Script

namespace Continuation

/-- What the operations make, from nothing and with any frames. -/
inductive Built {α : Type} : Continuation α → Prop where
  | empty : Built .empty
  | ofBlock (block : List α) : Built (.ofBlock block)
  | push {code : Continuation α} (built : Built code) (frame : Frame α) : Built (code.push frame)
  | pop {code rest : Continuation α} {frame : Frame α} (built : Built code)
      (popped : code.pop = some (frame, rest)) : Built rest
  | pushFollowing {code : Continuation α} (built : Built code) (frame : Frame α) :
      Built (code.pushFollowing frame)

section Built

variable {α : Type} {code rest : Continuation α} {frame : Frame α}

theorem frames_of_pop (popped : code.pop = some (frame, rest)) :
    code.frames = frame :: rest.frames := by
  obtain ⟨_ | ⟨first, frames⟩⟩ := code
  · cases popped
  · cases popped
    rfl

theorem Built.inside (built : code.Built) : code.Inside := by
  induction built with
  | empty => exact inside_empty
  | ofBlock block => exact inside_ofBlock block
  | push built frame ih => exact inside_push ih frame
  | pop built popped ih =>
    intro frame member
    exact ih frame (frames_of_pop popped ▸ List.mem_cons_of_mem _ member)
  | pushFollowing built frame ih => exact inside_pushFollowing ih frame

/-- Frames inside their blocks are made by pushing them one after another. -/
theorem built_of_inside (inside : code.Inside) : code.Built := by
  obtain ⟨frames⟩ := code
  induction frames with
  | nil => exact .empty
  | cons frame frames ih =>
    obtain ⟨bound, inside⟩ := List.forall_mem_cons.1 inside
    have pushed := (ih inside).push frame
    rwa [Continuation.push, if_pos bound] at pushed

theorem Inside.at_of_pop (inside : code.Inside) (popped : code.pop = some (frame, rest)) :
    ∃ current, code.At frame rest current := by
  rcases inside.cases with nothing | ⟨top, others, current, met⟩
  · cases nothing.symm.trans popped
  · cases met.popped.symm.trans popped
    exact ⟨current, met⟩

theorem isEmpty_iff_remaining (inside : code.Inside) :
    code.isEmpty = true ↔ code.remaining = [] := by
  rw [← Bool.not_eq_false, isEmpty_eq_false_iff inside, not_not]

theorem pushFollowing_eq (code : Continuation α) (frame : Frame α) :
    code.pushFollowing frame = if frame.index + 1 < frame.block.length then
      ⟨⟨frame.block, frame.index + 1, false⟩ :: code.frames⟩ else code := by
  unfold pushFollowing Frame.following
  by_cases more : frame.index + 1 < frame.block.length
  · simp only [if_pos more, push]
  · simp only [if_neg more]

end Built

end Continuation

/-- The label after a construct is handed down from around it exactly when nothing follows. -/
theorem labelAfter_of_inside {code : Continuation Stmt} (inside : code.Inside)
    (fallThrough : String) (run : Run) :
    ∃ after later, labelAfter code fallThrough run = .ok after later ∧
      ((∃ name, after = .fallThrough name) ↔ code.remaining = []) ∧
      (code.remaining = [] → after = .fallThrough fallThrough) := by
  unfold labelAfter
  rw [inside.ahead]
  generalize code.remaining = statements
  cases statements with
  | nil => exact ⟨_, _, rfl, ⟨fun _ => rfl, fun _ => ⟨_, rfl⟩⟩, fun _ => rfl⟩
  | cons first rest => cases first <;> exact ⟨_, _, rfl, ⟨nofun, nofun⟩, nofun⟩

/-- Whatever call a run makes, the frames of its code are inside their blocks. -/
theorem ComesTo.inside {options : Options} {body : List Stmt} {block : Pending} {start : Run}
    {call : Call} (comes : ComesTo options body block start)
    (reaches : (block.firstCall start).Reaches call) : call.code.Inside := by
  -- What waits was put there inside its blocks, and the calls keep that up.
  obtain ⟨_, _, first, _⟩ := comes.sound
  obtain ⟨_, sound⟩ := reaches.sound first
  exact sound.inside

/-- Every continuation that the operations make is inside its blocks, is empty exactly when nothing
remains, and is walked over statement by statement: a push puts what it adds before what remains,
and a pop gives the first statement that remains and, with the following position pushed back and
its flag cleared, all the others. The code of every call that a run makes is one of these, so none
comes to a frame without a statement; and the label after a construct is the one handed down
exactly when nothing remains behind it. -/
theorem remaining_of_built :
    (∀ code : Continuation Stmt, code.Built →
        (∀ frame ∈ code.frames, frame.index < frame.block.length) ∧
          (code.isEmpty = true ↔ code.remaining = []) ∧
          (∀ frame, (code.push frame).remaining =
            frame.block.drop frame.index ++ code.remaining) ∧
          (∀ frame rest, code.pop = some (frame, rest) →
            ∃ statement, frame.current = some statement ∧
              code.remaining = statement :: (rest.pushFollowing frame).remaining ∧
              rest.pushFollowing frame = if frame.index + 1 < frame.block.length then
                ⟨⟨frame.block, frame.index + 1, false⟩ :: rest.frames⟩ else rest) ∧
          ∀ fallThrough run, ∃ after later, labelAfter code fallThrough run = .ok after later ∧
            ((∃ name, after = .fallThrough name) ↔ code.remaining = []) ∧
            (code.remaining = [] → after = .fallThrough fallThrough)) ∧
      ∀ options body block start call, ComesTo options body block start →
        (block.firstCall start).Reaches call → call.code.Built ∧
          ∀ frame rest, call.code.pop = some (frame, rest) →
            ∃ statement, frame.current = some statement := by
  constructor
  · intro code built
    have inside := built.inside
    refine ⟨inside, Continuation.isEmpty_iff_remaining inside, Continuation.remaining_push code,
      fun frame rest popped => ?_, labelAfter_of_inside inside⟩
    obtain ⟨statement, met⟩ := inside.at_of_pop popped
    exact ⟨statement, met.here, met.remaining, Continuation.pushFollowing_eq rest frame⟩
  · intro options body block start call comes reaches
    have inside := comes.inside reaches
    refine ⟨Continuation.built_of_inside inside, fun frame rest popped => ?_⟩
    obtain ⟨statement, met⟩ := inside.at_of_pop popped
    exact ⟨statement, met.here⟩

/-- Two blocks, one walked to its last statement, and a push that resumes nothing. -/
def walked : Continuation Stmt :=
  ((Continuation.ofBlock [.empty, .goto "outer"]).push ⟨[.expression .null, .ret none], 1, true⟩).push
    ⟨[.empty], 1, false⟩

theorem remaining_of_built_walked :
    walked.Built ∧ walked.remaining = [.ret none, .empty, .goto "outer"] ∧
      walked.pop = some (⟨[.expression .null, .ret none], 1, true⟩,
        .ofBlock [.empty, .goto "outer"]) ∧
      ∃ statement, walked.remaining = statement ::
        ((Continuation.ofBlock [.empty, .goto "outer"]).pushFollowing
          ⟨[.expression .null, .ret none], 1, true⟩).remaining := by
  have built : walked.Built := .push (.push (.ofBlock _) _) _
  obtain ⟨statement, _, walks, _⟩ := (remaining_of_built.1 walked built).2.2.2.1 _ _ rfl
  exact ⟨built, rfl, rfl, statement, walks⟩

end Unnest.Flatten
