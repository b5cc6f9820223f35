import Unnest.Proofs.Flatten.BlockNames
import Unnest.Proofs.Flatten.Stages

/-! Bodies without labels. The engine copies such a body into the first block and is done,
unless some jump in the body has a label; then it fails with the first one. Any label makes a
second block. -/

namespace Unnest.Flatten
open Script

section Copied

variable {body : List Stmt} {statement : Stmt}

/-- The first named jump of a body is the first one in a statement of it. -/
theorem findSome_nodes (body : List Stmt) :
    (nodes body).findSome? Stmt.ownNamedJump = body.findSome? Stmt.namedJump := by
  induction body with
  | nil => rfl
  | cons first rest ih =>
    rw [nodes_cons, List.findSome?_append, ih, List.findSome?_cons, Stmt.namedJump_eq_head,
      List.head?_filterMap]
    cases first.nodes.findSome? Stmt.ownNamedJump <;> rfl

/-- A list is copied, with an ending, unless a jump in it has a label. -/
def copied (code ending : List Stmt) : Except FlattenError (List Stmt) :=
  match code.findSome? Stmt.namedJump with
  | some (keyword, label) => .error (.namedJump keyword label)
  | none => .ok (code ++ ending)

theorem copied_cons (first : Stmt) (rest ending : List Stmt) : copied (first :: rest) ending =
    match first.namedJump with
    | some (keyword, label) => .error (.namedJump keyword label)
    | none => (copied rest ending).map (first :: ·) := by
  rw [copied, copied, List.findSome?_cons]
  cases first.namedJump with
  | some jump => rfl
  | none =>
    cases rest.findSome? Stmt.namedJump with
    | some jump => rfl
    | none => rfl

theorem arrive_of_unlabeled (isBound : String → Bool) (free : statement.containsLabels = false) :
    arrive isBound statement = .runs statement := by
  cases statement with
  | labeled label body =>
    rw [Stmt.containsLabels_eq] at free
    cases free
  | _ => rfl

theorem placeStatement_of_unlabeled (free : statement.containsLabels = false) (frame : Frame Stmt)
    (rest : Continuation Stmt) (fallThrough : String) (spot : Spot) :
    placeStatement place statement frame rest fallThrough spot =
      match statement.namedJump with
      | some (keyword, label) => throw (.namedJump keyword label)
      | none => do
        let others ← place (rest.pushFollowing frame) fallThrough (.after [statement])
        return statement :: others := by
  rw [placeStatement, free]
  rfl

/-- Code without labels is copied, and the engine stays in the state that it is in. The
statements in front have been put into the block already. -/
theorem place_unlabeled {code : Continuation Stmt} {front : List Stmt} {spot : Spot}
    (inside : code.Inside) (free : labels code.remaining = [])
    (reached : spot.reached = fallsThrough front) (fallThrough : String) :
    place code fallThrough spot =
      ofExcept (copied code.remaining
        (Spot.jump (.after (front ++ code.remaining)) fallThrough)) := by
  induction ahead : code.remaining generalizing code front spot with
  | nil =>
    rcases inside.cases with nothing | ⟨frame, rest, current, met⟩
    · rw [place_of_pop_none nothing, List.append_nil, Spot.jump, reached]
      rfl
    · cases met.remaining.symm.trans ahead
  | cons first others ih =>
    obtain ⟨frame, rest, met, left⟩ := inside.at_of_remaining ahead
    rw [ahead] at free
    have plain := labels_eq_nil_iff_forall.1 free first (List.mem_cons_self ..)
    have later : labels (rest.pushFollowing frame).remaining = [] := by
      rw [left]
      exact (List.append_eq_nil_iff.1 free).2
    have ending : (Spot.after [first]).reached = fallsThrough (front ++ [first]) := by
      rw [fallsThrough_append_singleton]
      rfl
    have copies := ih (met.inside_following inside) later ending left
    rw [List.append_assoc, List.singleton_append] at copies
    funext run
    rw [place_of_at met, get_bind_apply]
    simp only [arrive_of_unlabeled _ plain, placeStatement_of_unlabeled plain, copies, copied_cons]
    cases first.namedJump with
    | some jump => rfl
    | none =>
      dsimp only
      generalize copied others _ = result
      cases result <;> rfl

end Copied

section Result

variable {options : Options} {body : List Stmt} {blocks : List LabeledBlock}

theorem takeNext_of_cons {run : Run} {block : Pending} {others : List Pending}
    (waiting : run.schedule.queue = block :: others) :
    takeNext run = .ok (some block) { run with schedule.queue := others } := by
  simp only [takeNext, Schedule.next, waiting]

/-- A block without labels is the last one if no other block waits. -/
theorem makeBlocks_unlabeled {run : Run} {block : Pending} (alone : run.schedule.queue = [block])
    (inside : block.continuation.Inside) (free : labels block.continuation.remaining = [])
    (limit : Nat) : ∃ final, makeBlocks (limit + 2) run =
      match copied block.continuation.remaining
        (Spot.jump (.after block.continuation.remaining) block.fallThrough) with
      | .ok statements => .ok [⟨block.name, statements⟩] final
      | .error fault => .error fault final := by
  have start : (Spot.blockStart block.name).reached = fallsThrough [] := rfl
  have placed := place_unlabeled inside free start block.fallThrough
  rw [List.nil_append] at placed
  have taken := takeNext_of_cons alone
  generalize copied _ _ = result at placed ⊢
  cases result with
  | error fault =>
    have failure : ∃ final, makeBlock block { run with schedule.queue := [] } =
        .error fault final := by
      rw [makeBlock, placed]
      exact ⟨_, rfl⟩
    rcases failure with ⟨final, failure⟩
    refine ⟨final, ?_⟩
    rw [makeBlocks, RunM.bind_of_ok taken]
    exact RunM.bind_of_error failure
  | ok statements =>
    have success : ∃ final, makeBlock block { run with schedule.queue := [] } =
        .ok ⟨block.name, statements⟩ final ∧ final.schedule.queue = [] := by
      rw [makeBlock, placed]
      exact ⟨_, rfl, rfl⟩
    rcases success with ⟨final, success, drained⟩
    have stops : makeBlocks (limit + 1) final = .ok [] final := by
      rw [makeBlocks, RunM.bind_of_ok (takeNext_of_empty drained)]
      rfl
    refine ⟨final, ?_⟩
    rw [makeBlocks, RunM.bind_of_ok taken]
    dsimp only
    rw [RunM.bind_of_ok success, RunM.bind_of_ok stops]
    rfl

/-- The run for a body without labels. -/
theorem runFrom_unlabeled (options : Options) (more : body ≠ []) (free : labels body = []) :
    ∃ final, runFrom #[] options body =
      match copied body (Spot.jump (.after body) options.exitLabel) with
      | .ok statements => .ok [⟨Mint.nameAt options.anonymousPrefix 0, statements⟩] final
      | .error fault => .error fault final := by
  rcases tracks_scheduleBody options more with ⟨entry, starts, tracks⟩
  have unlabeled : labels (Continuation.ofBlock body).remaining = [] := by
    rwa [Continuation.remaining_ofBlock]
  rcases makeBlocks_unlabeled tracks.queue (Continuation.inside_ofBlock body) unlabeled
    (2 * weight body) with ⟨last, makes⟩
  rw [Continuation.remaining_ofBlock, ← blockLimit] at makes
  rw [runFrom_eq more, RunM.bind_of_ok starts]
  generalize copied body _ = result at makes ⊢
  cases result with
  | error fault => exact ⟨last, RunM.bind_of_error makes⟩
  | ok statements =>
    rw [RunM.bind_of_ok makes]
    exact ⟨_, rfl⟩

/-- With one block, no label is declared: the block of a label is not the first one. -/
theorem labels_of_length_one (success : flatten options body = .ok blocks)
    (alone : blocks.length = 1) : labels body = [] := by
  rcases flatten_ok_iff.1 success with ⟨accepted, final, ran⟩
  by_cases more : body = []
  · rw [more, labels_nil]
  · rcases made_of_runFrom accepted more ran with ⟨later, made, _⟩
    have first := made.first
    rw [← made.names] at first
    refine List.eq_nil_iff_forall_not_mem.2 fun label declared => ?_
    have named := (mem_names_iff accepted ran label).2 (.inl declared)
    rcases List.length_eq_one_iff.1 alone with ⟨block, rfl⟩
    rw [List.map_singleton, List.head?_cons] at first
    exact accepted.named declared 0 ((List.mem_singleton.1 named).trans (Option.some.inj first))

/-- A body without labels is left alone: it becomes one block, which goes on to the exit label
if control can run off its end, unless a jump in it has a label. Then the first such jump is
reported. Only a body without labels becomes one block. -/
theorem flatten_unlabeled (options : Options) (body : List Stmt) :
    (options.validate = .ok () → labels body = [] →
      flatten options body =
        match (nodes body).findSome? Stmt.ownNamedJump with
        | some (keyword, label) => .error (.namedJump keyword label)
        | none => .ok [⟨options.anonymousPrefix ++ "0",
            body ++ if fallsThrough body then [.goto options.exitLabel] else []⟩]) ∧
      ∀ blocks, flatten options body = .ok blocks → blocks.length = 1 → labels body = [] := by
  refine ⟨fun valid free => ?_, fun blocks success alone => labels_of_length_one success alone⟩
  have accepted : Accepted options body := by
    refine ⟨valid, ?_, ?_⟩
    · rw [free]
      exact List.nodup_nil
    · rw [free]
      exact List.forall_mem_nil _
  by_cases more : body = []
  · subst more
    have ending : (if fallsThrough [] then [Stmt.goto options.exitLabel] else []) =
        [.goto options.exitLabel] := if_pos rfl
    have ran : ∃ final, runFrom #[] options [] =
        .ok [⟨Mint.nameAt options.anonymousPrefix 0, [.goto options.exitLabel]⟩] final := ⟨_, rfl⟩
    rw [nodes_nil, List.findSome?_nil, List.nil_append, ending]
    exact flatten_ok_iff.2 ⟨accepted, ran⟩
  · rcases runFrom_unlabeled options more free with ⟨final, ran⟩
    rw [copied, ← findSome_nodes] at ran
    generalize (nodes body).findSome? Stmt.ownNamedJump = jump at ran ⊢
    cases jump with
    | some jump => exact flatten_error_iff.2 (.inr ⟨accepted, final, ran⟩)
    | none => exact flatten_ok_iff.2 ⟨accepted, final, ran⟩

/-- A loop with a jump of its own, a return, and a jump that is never reached behind it. -/
def strayCode : List Stmt :=
  [.whileLoop (.identifier "more") [.breakJump none], .ret none, .continueJump none]

/-- Two jumps with labels, the first one inside a switch. -/
def strayNames : List Stmt :=
  [.switch (.identifier "n") [⟨none, [.continueJump (some "A")]⟩], .breakJump (some "B")]

theorem flatten_unlabeled_stray :
    Options.standard.validate = .ok () ∧ labels strayCode = [] ∧ labels strayNames = [] ∧
      flatten .standard strayCode = .ok [⟨"$sm0", strayCode ++ [.goto "$exit"]⟩] ∧
      flatten .standard strayNames = .error (.namedJump .continueJump "A") := by
  have valid : Options.standard.validate = .ok () := by decide
  have freeCode : labels strayCode = [] := by cbv
  have freeNames : labels strayNames = [] := by cbv
  have plain : (nodes strayCode).findSome? Stmt.ownNamedJump = none := by cbv
  have named : (nodes strayNames).findSome? Stmt.ownNamedJump = some (.continueJump, "A") := by cbv
  have code := (flatten_unlabeled .standard strayCode).1 valid freeCode
  have names := (flatten_unlabeled .standard strayNames).1 valid freeNames
  rw [plain] at code
  rw [named] at names
  exact ⟨valid, (flatten_unlabeled .standard strayCode).2 _ code rfl, freeNames, code, names⟩

end Result

end Unnest.Flatten
