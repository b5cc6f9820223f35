import Unnest.Proofs.Flatten.BlockNames
import Unnest.Proofs.Flatten.Failures
import Unnest.Proofs.Flatten.Moved

/-! Flattening ends, and with few blocks. The loop that makes blocks comes to an end of its
own accord, and what it makes is linear in what the body holds: a branch that contains labels
takes one name, a `while` loop two, and any other loop three. -/

namespace Unnest.Flatten
open Script

/-- One more block in front, if the others can be made. -/
def prepend (made : LabeledBlock) : EStateM.Result FlattenError Run (List LabeledBlock) →
    EStateM.Result FlattenError Run (List LabeledBlock)
  | .ok others final => .ok (made :: others) final
  | .error fault final => .error fault final

/-- Making blocks without a limit, until no block waits or one cannot be made. -/
inductive LoopEnds : Run → EStateM.Result FlattenError Run (List LabeledBlock) → Prop where
  | drained {run final : Run} (taken : takeNext run = .ok none final) : LoopEnds run (.ok [] final)
  | fails {run middle final : Run} {block : Pending} {fault : FlattenError}
      (taken : takeNext run = .ok (some block) middle)
      (failure : makeBlock block middle = .error fault final) : LoopEnds run (.error fault final)
  | makes {run middle after : Run} {block : Pending} {made : LabeledBlock}
      {result : EStateM.Result FlattenError Run (List LabeledBlock)}
      (taken : takeNext run = .ok (some block) middle)
      (success : makeBlock block middle = .ok made after) (ends : LoopEnds after result) :
      LoopEnds run (prepend made result)

/-- What is left of the result of a run in the end. -/
def outcome : EStateM.Result FlattenError Run (List LabeledBlock) →
    Except FlattenError (List LabeledBlock)
  | .ok blocks _ => .ok blocks
  | .error fault _ => .error fault

/-- Flattening without a limit on the number of blocks. -/
inductive Flattens (options : Options) (body : List Stmt) :
    Except FlattenError (List LabeledBlock) → Prop where
  | rejected {fault : FlattenError} (checked : precheck options body = .error fault) :
      Flattens options body (.error fault)
  | nothing (checked : precheck options body = .ok ()) (empty : body = []) :
      Flattens options body
        (.ok [⟨Mint.nameAt options.anonymousPrefix 0, [.goto options.exitLabel]⟩])
  | runs {entry : Run} {result : EStateM.Result FlattenError Run (List LabeledBlock)}
      (checked : precheck options body = .ok ()) (more : body ≠ [])
      (starts : scheduleBody options body (.start options (openedJournal body)) = .ok () entry)
      (ends : LoopEnds entry result) : Flattens options body (outcome result)

section Ends

variable {run final : Run} {fault : FlattenError} {blocks : List LabeledBlock}
  {options : Options} {body : List Stmt}

theorem loopEnds_of_error {limit : Nat} (failure : makeBlocks limit run = .error fault final) :
    LoopEnds run (.error fault final) := by
  induction limit generalizing run with
  | zero => cases failure
  | succ limit ih =>
    obtain ⟨taken, middle, takes, failure⟩ := RunM.bind_infallible infallible_takeNext failure
    cases taken with
    | none => cases failure
    | some block =>
      rcases RunM.bind_error failure with failure | ⟨made, after, makes, failure⟩
      · exact .fails takes failure
      · rcases RunM.bind_error failure with failure | ⟨_, _, _, result⟩
        · have ends : LoopEnds run (prepend made (.error fault final)) := .makes takes makes (ih failure)
          exact ends
        · cases result

/-- A loop that stops short of its limit stops of its own accord. -/
theorem loopEnds_of_ok {limit : Nat} (success : makeBlocks limit run = .ok blocks final)
    (early : blocks.length < limit) : LoopEnds run (.ok blocks final) := by
  induction limit generalizing run blocks with
  | zero => exact absurd early (Nat.not_lt_zero _)
  | succ limit ih =>
    obtain ⟨taken, middle, takes, success⟩ := RunM.bind_ok success
    cases taken with
    | none =>
      cases success
      exact .drained takes
    | some block =>
      obtain ⟨made, after, makes, success⟩ := RunM.bind_ok success
      obtain ⟨others, lastRun, makesOthers, result⟩ := RunM.bind_ok success
      cases result
      have others := ih makesOthers (Nat.lt_of_succ_lt_succ early)
      have ends : LoopEnds run (prepend made _) := .makes takes makes others
      exact ends

/-- The loop can end in one way only. -/
theorem LoopEnds.unique {first second : EStateM.Result FlattenError Run (List LabeledBlock)}
    (ends : LoopEnds run first) (also : LoopEnds run second) : first = second := by
  induction ends generalizing second with
  | drained taken =>
    cases also with
    | drained taken' =>
      cases taken.symm.trans taken'
      rfl
    | fails taken' | makes taken' => cases taken.symm.trans taken'
  | fails taken failure =>
    cases also with
    | drained taken' => cases taken.symm.trans taken'
    | fails taken' failure' =>
      cases taken.symm.trans taken'
      cases failure.symm.trans failure'
      rfl
    | makes taken' success' =>
      cases taken.symm.trans taken'
      cases failure.symm.trans success'
  | makes taken success ends ih =>
    cases also with
    | drained taken' => cases taken.symm.trans taken'
    | fails taken' failure' =>
      cases taken.symm.trans taken'
      cases success.symm.trans failure'
    | makes taken' success' ends' =>
      cases taken.symm.trans taken'
      cases success.symm.trans success'
      rw [ih ends']

theorem flattens_flatten (options : Options) (body : List Stmt) :
    Flattens options body (flatten options body) := by
  cases result : flatten options body with
  | error fault =>
    rcases flatten_error_iff.1 result with checked | ⟨accepted, final, ran⟩
    · exact .rejected checked
    · obtain ⟨more, entry, starts, _, failure⟩ := fails_of_runFrom ran
      exact .runs (precheck_ok_iff.2 accepted) more starts (loopEnds_of_error failure)
  | ok blocks =>
    obtain ⟨accepted, final, ran⟩ := flatten_ok_iff.1 result
    by_cases more : body = []
    · subst more
      cases ran
      exact .nothing (precheck_ok_iff.2 accepted) rfl
    · obtain ⟨entry, last, _, starts, tracks, makes, _⟩ := makes_of_runFrom more ran
      obtain ⟨_, _, _, early⟩ := made_of_entry accepted tracks makes
      exact .runs (precheck_ok_iff.2 accepted) more starts (loopEnds_of_ok makes early)

theorem Flattens.unique {first second : Except FlattenError (List LabeledBlock)}
    (flattens : Flattens options body first) (also : Flattens options body second) :
    first = second := by
  cases flattens with
  | rejected checked =>
    cases also with
    | rejected checked' =>
      cases checked.symm.trans checked'
      rfl
    | nothing checked' | runs checked' => cases checked.symm.trans checked'
  | nothing checked empty =>
    cases also with
    | rejected checked' => cases checked.symm.trans checked'
    | nothing => rfl
    | runs _ more => exact absurd empty more
  | runs checked more starts ends =>
    cases also with
    | rejected checked' => cases checked.symm.trans checked'
    | nothing _ empty => exact absurd empty more
    | runs _ _ starts' ends' =>
      cases starts.symm.trans starts'
      rw [ends.unique ends']

end Ends

/-- How many statements of the kind in the body contain labels. -/
def labeledOf (kind : Kind) (body : List Stmt) : Nat :=
  (nodes body).countP fun statement => statement.kind == kind && statement.containsLabels

/-- The most names that flattening the body takes. -/
def nameBound (body : List Stmt) : Nat :=
  1 + labeledOf .branch body + 2 * labeledOf .whileLoop body +
    3 * (labeledOf .doLoop body + labeledOf .forLoop body)

section Bounds

variable {stem : String} {body : List Stmt} {fault : FlattenError} {done : Nat}
  {ledger later : Ledger} {options : Options} {blocks : List LabeledBlock}

theorem mints_eq (body : List Stmt) : 1 + mints body = nameBound body := by
  have sites : body.flatMap sites = (nodes body).filterMap siteOf := by
    rw [nodes, List.filterMap_flatMap]
    rfl
  rw [mints, sites, nameBound]
  unfold labeledOf
  induction nodes body with
  | nil => rfl
  | cons node rest ih =>
    simp only [List.filterMap_cons, List.countP_cons]
    rw [siteOf]
    generalize node.containsLabels = labeled
    cases labeled with
    | false => simpa using ih
    | true =>
      generalize node.kind = kind
      cases kind <;> simp [cost] <;> omega

theorem loops_eq (body : List Stmt) : loops body =
    labeledOf .whileLoop body + labeledOf .doLoop body + labeledOf .forLoop body := by
  rw [loops_eq_countP]
  unfold labeledOf
  induction nodes body with
  | nil => rfl
  | cons node rest ih =>
    have kinds : (loopOf node).isSome =
        (node.kind == .whileLoop || node.kind == .doLoop || node.kind == .forLoop) := by
      cases node <;> rfl
    simp only [List.countP_cons, ih, labeledLoop, kinds]
    generalize node.containsLabels = labeled
    generalize node.kind = kind
    cases labeled with
    | false => simp
    | true => cases kind <;> simp <;> omega

/-- A run that is stopped has made up no more names than one that succeeds can. -/
theorem Stopped.minted_le (stopped : Stopped stem fault done ledger later)
    (steady : Steady stem body done ledger) : later.minted ≤ 1 + mints body := by
  induction stopped with
  | @here done ledger later block waits refused =>
    have few := refused.minted_le
    have within := steady.within
    have credited : credits ledger (ledger.sent.drop (done + 1)) ≤
        dues (ledger.sent.drop (done + 1)) :=
      credits_le_dues fun block member => steady.inside block (List.mem_of_mem_drop member)
    rw [drop_of_waits waits] at within
    simp only [dues, credits, List.map_cons, List.sum_cons, Spot.blockStart, Option.isSome_some,
      if_true] at *
    omega
  | after waits placed stopped ih => exact ih (steady.step waits placed)

theorem Steady.minted_le (steady : Steady stem body ledger.sent.length ledger) :
    ledger.minted ≤ 1 + mints body := by
  have within := steady.within
  rw [List.drop_length] at within
  simpa [dues, credits] using within

/-- However a run ends, it has made up no more names than the body allows. -/
theorem minted_le_of_runFrom (accepted : Accepted options body) {final : Run}
    (ends : (∃ blocks, runFrom #[] options body = .ok blocks final) ∨
      ∃ fault, runFrom #[] options body = .error fault final) :
    final.mint.minted ≤ nameBound body := by
  rw [← mints_eq]
  rcases ends with ⟨blocks, success⟩ | ⟨fault, failure⟩
  · by_cases more : body = []
    · subst more
      cases success
      exact Nat.le_refl _
    · obtain ⟨later, made, tracks⟩ := made_of_runFrom accepted more success
      rw [tracks.mint]
      exact (made.steady (steady_entry accepted)).minted_le
  · obtain ⟨last, later, stopped, tracks⟩ := stopped_of_runFrom accepted failure
    rw [tracks.mint]
    exact stopped.minted_le (steady_entry accepted)

/-- A run that succeeds takes each loop with labels apart in a block of its own name, and has
moved none that it does not take apart. -/
theorem loops_of_runFrom (accepted : Accepted options body) {final : Run}
    (success : runFrom #[] options body = .ok blocks final) :
    (Journal.told Journal.Entry.movedTo final.journal).Nodup ∧
      Journal.told Journal.Entry.movedTo final.journal ⊆
        Journal.told Journal.Entry.inlinedAt final.journal ∧
      (Journal.told Journal.Entry.inlinedAt final.journal).Nodup ∧
      (Journal.told Journal.Entry.inlinedAt final.journal).length = loops body := by
  by_cases more : body = []
  · subst more
    cases success
    exact ⟨.nil, List.Subset.refl _, .nil, rfl⟩
  · obtain ⟨later, made, tracks⟩ := made_of_runFrom accepted more success
    have steady := made.steady (steady_entry accepted)
    have tidy := made.tidy (steady_entry accepted) (tidy_entry options body)
    have counted := tidy.counted
    rw [List.drop_length] at counted
    rw [tracks.moved, tracks.inlined]
    refine ⟨steady.distinct.sublist tidy.moved, fun name member => ?_,
      steady.distinct.sublist (tidy.inlined.trans (List.take_sublist _ _)), counted⟩
    exact (tidy.ahead name member).resolve_right (by simp)

/-- Flattening ends, also without a limit on the number of blocks, and takes few names: one for
the entry, one for each branch that contains labels, two for each such `while` loop and three
for each other such loop, so that a counter below that bound never wraps. There is one block
for each of these names and for each declared label. Each loop that contains labels is taken
apart once, and moved at most once, since the block that it is moved to takes it apart. -/
theorem linear_of_flatten (options : Options) (body : List Stmt) :
    (∀ result, Flattens options body result ↔ flatten options body = result) ∧
      (∀ blocks, flatten options body = .ok blocks →
        ∃ final, runFrom #[] options body = .ok blocks final ∧
          final.mint.minted ≤ nameBound body ∧
          blocks.length ≤ nameBound body + (labels body).length ∧
          (Journal.told Journal.Entry.movedTo final.journal).Nodup ∧
          Journal.told Journal.Entry.movedTo final.journal ⊆
            Journal.told Journal.Entry.inlinedAt final.journal ∧
          (Journal.told Journal.Entry.inlinedAt final.journal).Nodup ∧
          (Journal.told Journal.Entry.inlinedAt final.journal).length =
            labeledOf .whileLoop body + labeledOf .doLoop body + labeledOf .forLoop body) ∧
      (∀ final, precheck options body = .ok () →
        (∃ blocks, runFrom #[] options body = .ok blocks final) ∨
          (∃ fault, runFrom #[] options body = .error fault final) →
        nameBound body < 2 ^ 32 → final.mint.minted < 2 ^ 32) ∧
      (∀ (run moved : Run) (code rest : Continuation Stmt) (frame : Frame Stmt)
        (current loop : Stmt) (head : LoopHead) (loopBody jump : List Stmt) (fallThrough : String),
        code.At frame rest current → arrive run.isBound current = .runs loop →
        loop.containsLabels = true → loopOf loop = some (head, loopBody) →
        head.labeledInit = none →
        splitBeforeLoop (head.resumption frame) rest fallThrough run = .ok jump moved →
          ∃ task, jump = [.goto task.name] ∧
            moved.schedule.queue = run.schedule.queue ++ [task] ∧
            ∀ later : Run, (∀ name, run.isBound name = true → later.isBound name = true) →
              place task.continuation task.fallThrough (.blockStart task.name) later =
                inlineLoop place head loopBody task.name (rest.pushFollowing frame) task.fallThrough
                  later) := by
  refine ⟨fun result => ⟨fun flattens => (flattens_flatten options body).unique flattens, ?_⟩,
    fun blocks success => ?_, fun final checked ends few => ?_, ?_⟩
  · rintro rfl
    exact flattens_flatten options body
  · obtain ⟨accepted, final, ran⟩ := flatten_ok_iff.1 success
    have minted := minted_le_of_runFrom accepted (.inl ⟨blocks, ran⟩)
    have loops := loops_of_runFrom accepted ran
    rw [loops_eq] at loops
    refine ⟨final, ran, minted, ?_, loops⟩
    by_cases more : body = []
    · subst more
      cases ran
      exact Nat.le_add_right _ _
    · obtain ⟨later, made, tracks⟩ := made_of_runFrom accepted more ran
      have counted := (made.names_perm accepted).length_eq
      rw [List.length_append, List.length_map, List.length_range] at counted
      rw [tracks.mint] at minted
      calc blocks.length = later.names.length := by rw [← made.names, List.length_map]
        _ = (labels body).length + later.minted := counted
        _ ≤ (labels body).length + nameBound body := Nat.add_le_add_left minted _
        _ = nameBound body + (labels body).length := Nat.add_comm ..
  · exact Nat.lt_of_le_of_lt (minted_le_of_runFrom (precheck_ok_iff.1 checked) ends) few
  · intro run moved code rest frame current loop head loopBody jump fallThrough met arrival labeled
      isLoop plainInit success
    exact inlines_of_splitBeforeLoop met arrival labeled isLoop plainInit success

/-- One loop with an initializer: it takes four names and five blocks, and its block takes it
apart. -/
theorem linear_of_flatten_labeledFor :
    (∃ final, runFrom #[] .standard labeledFor = .ok labeledForBlocks final ∧
      final.mint.minted ≤ 4 ∧ final.mint.minted < 2 ^ 32) ∧
      ∃ (task : Pending) (moved : Run), splitBeforeLoop (⟨labeledFor, 0, true⟩ : Frame Stmt) .empty "$exit"
        (.start .standard #[]) = .ok [.goto task.name] moved ∧
          place task.continuation task.fallThrough (.blockStart task.name) moved =
            inlineLoop place (.forHead (.expression (.identifier "start"))
              (some (.identifier "more")) (some (.identifier "step")))
              [.labeled "L" (.expression (.identifier "work"))] task.name
              (Continuation.empty.pushFollowing ⟨labeledFor, 0, false⟩) task.fallThrough moved := by
  obtain ⟨_, succeeds, bounded, splits⟩ := linear_of_flatten .standard labeledFor
  have unlabeled (value : Expr) : (Stmt.expression value).containsLabels = false := by
    simp [Stmt.containsLabels_eq, Stmt.children, Stmt.ownLabel]
  have bound : nameBound labeledFor = 4 := by
    simp [nameBound, labeledOf, nodes_labeledFor, containsLabels_labeledFor, Stmt.kind]
  constructor
  · obtain ⟨final, ran, minted, _⟩ := succeeds _ flatten_labeledFor
    have checked := precheck_ok_iff.2 (flatten_ok_iff.1 flatten_labeledFor).1
    rw [bound] at minted bounded
    exact ⟨final, ran, minted, bounded final checked (.inl ⟨_, ran⟩) (by decide)⟩
  · have success : ∃ jump moved, splitBeforeLoop (⟨labeledFor, 0, true⟩ : Frame Stmt) .empty "$exit"
        (.start .standard #[]) = .ok jump moved := ⟨_, _, rfl⟩
    obtain ⟨jump, moved, success⟩ := success
    have met : (Continuation.ofBlock labeledFor).At ⟨labeledFor, 0, false⟩ .empty _ := ⟨rfl, rfl⟩
    obtain ⟨task, rfl, _, inlines⟩ := splits _ _ _ _ _ _ _ (.forHead _ _ _) _ _ _ met rfl
      containsLabels_labeledFor rfl (by simp [LoopHead.labeledInit, unlabeled]) success
    exact ⟨task, moved, success, inlines moved (by intro name bound; cases bound)⟩

end Bounds

end Unnest.Flatten
