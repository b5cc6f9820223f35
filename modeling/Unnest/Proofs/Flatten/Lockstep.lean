import Unnest.Flatten.Blocks
import Unnest.Proofs.Flatten.Reword

/-! Two runs in lockstep. A run and another one that works on the same code in other words stay
in the same state, in other words, step by step, and they give the same results or fail for the
same reason. -/

namespace Unnest.Flatten
open Script

/-- The second run is in the state of the first, in other words. The journals may differ. -/
structure Alike (words : Rewording) (run run' : Run) : Prop where
  registry : run'.schedule.registry.names = run.schedule.registry.names.map words.name
  queue : run'.schedule.queue = run.schedule.queue.map (Pending.reword words)
  minted : run'.mint.minted = run.mint.minted
  minting : ∀ index,
    words.name (Mint.nameAt run.mint.stem index) = Mint.nameAt run'.mint.stem index

/-- Both steps give a value, which the function takes from one to the other, or both fail for
the same reason. -/
inductive Echoes (words : Rewording) {α β : Type} (f : α → β) :
    EStateM.Result FlattenError Run α → EStateM.Result FlattenError Run β → Prop where
  | ok {value : α} {run run' : Run} (alike : Alike words run run') :
      Echoes words f (.ok value run) (.ok (f value) run')
  | error {fault : FlattenError} {run run' : Run} :
      Echoes words f (.error fault run) (.error (fault.reword words) run')

/-- Wherever two runs are alike, the second step does what the first one does. -/
def Commutes (words : Rewording) {α β : Type} (f : α → β) (step : RunM α) (step' : RunM β) : Prop :=
  ∀ run run', Alike words run run' → Echoes words f (step run) (step' run')

section Rules

variable {words : Rewording} {α β γ δ : Type} {f : α → β} {g : γ → δ}

theorem Commutes.pure {value : α} {value' : β} (same : value' = f value) :
    Commutes words f (pure value) (pure value') := by
  subst same
  exact fun run run' alike => .ok alike

theorem Commutes.throw {fault fault' : FlattenError} (same : fault' = fault.reword words) :
    Commutes words f (throw fault) (throw fault') := by
  subst same
  exact fun run run' _ => .error

theorem Commutes.bind {step : RunM α} {step' : RunM β} {next : α → RunM γ} {next' : β → RunM δ}
    (first : Commutes words f step step')
    (rest : ∀ value, Commutes words g (next value) (next' (f value))) :
    Commutes words g (step >>= next) (step' >>= next') := by
  intro run run' alike
  have firstEchoes := first run run' alike
  change Echoes words g (EStateM.bind step next run) (EStateM.bind step' next' run')
  unfold EStateM.bind
  cases result : step run with
  | ok value middle =>
    rw [result] at firstEchoes
    generalize step' run' = result' at firstEchoes
    cases firstEchoes with
    | ok alike => exact rest value middle _ alike
  | error fault middle =>
    rw [result] at firstEchoes
    generalize step' run' = result' at firstEchoes
    cases firstEchoes
    exact .error

theorem Commutes.map {step : RunM α} {step' : RunM β} {up : α → γ} {up' : β → δ}
    (first : Commutes words f step step') (same : ∀ value, up' (f value) = g (up value)) :
    Commutes words g (up <$> step) (up' <$> step') := by
  rw [map_eq_pure_bind, map_eq_pure_bind]
  exact first.bind fun value => .pure (same value)

/-- What is done next may depend on the state. -/
theorem Commutes.get {next : Run → RunM γ} {next' : Run → RunM δ}
    (each : ∀ run run', Alike words run run' → Commutes words g (next run) (next' run')) :
    Commutes words g (MonadState.get >>= next) (MonadState.get >>= next') :=
  fun run run' alike => each run run' alike run run' alike

end Rules

section Steps

variable {words : Rewording} {run run' : Run}

theorem commutes_reportEvent (event event' : Journal.Event) :
    Commutes words id (reportEvent event) (reportEvent event') :=
  fun _ _ alike => .ok ⟨alike.registry, alike.queue, alike.minted, alike.minting⟩

theorem commutes_freshName : Commutes words words.name freshName freshName := by
  intro run run' alike
  rw [freshName_apply, freshName_apply, alike.minted, ← alike.minting]
  exact .ok ⟨alike.registry, alike.queue, rfl, alike.minting⟩

theorem commutes_takeNext : Commutes words (Option.map (Pending.reword words)) takeNext takeNext := by
  intro run run' alike
  have same := alike.queue
  unfold takeNext Schedule.next
  cases waiting : run.schedule.queue with
  | nil =>
    rw [waiting] at same
    rw [show run'.schedule.queue = [] from same]
    exact .ok alike
  | cons first others =>
    rw [waiting] at same
    rw [show run'.schedule.queue = first.reword words :: others.map (Pending.reword words) from same]
    exact .ok ⟨alike.registry, rfl, alike.minted, alike.minting⟩

theorem commutes_labelAfter (following : Continuation Stmt) (fallThrough : String) :
    Commutes words (Successor.reword words) (labelAfter following fallThrough)
      (labelAfter (following.map (Stmt.reword words)) (words.name fallThrough)) := by
  unfold labelAfter
  rw [Continuation.ahead_map]
  cases following.peek.bind Frame.current with
  | none => exact .pure rfl
  | some statement =>
    have otherwise : Commutes words (Successor.reword words) (.fresh <$> freshName)
        (.fresh <$> freshName) := commutes_freshName.map fun _ => rfl
    cases statement with
    | labeled label body => exact .pure rfl
    | branch test thenBody elseBody => cases elseBody <;> exact otherwise
    | function name params body =>
      obtain ⟨name', params', body', function⟩ :=
        Stmt.reword_function words name params body
      rw [Option.map_some, function]
      exact otherwise
    | _ => exact otherwise

variable (apart : Function.Injective words.name)
include apart

theorem Alike.isBound (alike : Alike words run run') (label : String) :
    run'.isBound (words.name label) = run.isBound label := by
  rw [Bool.eq_iff_iff, Run.isBound, Run.isBound, Registry.isBound, Registry.isBound,
    alike.registry, List.contains_iff_mem, List.contains_iff_mem, List.mem_map_of_injective apart]

theorem commutes_enqueue (block : Pending) :
    Commutes words id (enqueue block) (enqueue (block.reword words)) := by
  intro run run' alike
  have bound := alike.isBound apart block.name
  unfold Run.isBound at bound
  unfold enqueue Schedule.enqueue Registry.bind?
  rw [Pending.reword, bound, Continuation.isEmpty_map]
  by_cases taken : run.schedule.registry.isBound block.name = true
  · simp only [taken, if_true]
    exact .error
  · simp only [taken, if_false, Bool.false_eq_true]
    by_cases nothing : block.continuation.isEmpty = true
    · simp only [nothing, if_true]
      exact .ok ⟨congrArg (words.name block.name :: ·) alike.registry, alike.queue, alike.minted,
        alike.minting⟩
    · simp only [nothing, if_false, Bool.false_eq_true]
      refine .ok ⟨congrArg (words.name block.name :: ·) alike.registry, ?_, alike.minted,
        alike.minting⟩
      simp only [Run.note, alike.queue, List.map_append]
      rfl

theorem commutes_keep (promise : Promise) :
    Commutes words id (keep promise) (keep (promise.reword words)) := by
  refine .get fun run run' alike => ?_
  rw [show (promise.reword words).block.name = words.name promise.block.name from rfl,
    alike.isBound apart, show (promise.reword words).unlessBound = promise.unlessBound from rfl]
  split
  · exact .pure rfl
  · exact commutes_enqueue apart promise.block

theorem commutes_keepAll (promises : List Promise) :
    Commutes words id (promises.forM keep) ((promises.map (Promise.reword words)).forM keep) := by
  induction promises with
  | nil => exact .pure rfl
  | cons first rest ih => exact (commutes_keep apart first).bind fun _ => ih

omit apart in
theorem commutes_planLoop (head : LoopHead) (body : List Stmt) (loopName : String)
    (following : Continuation Stmt) (fallThrough : String) :
    Commutes words (LoopPlan.reword words) (planLoop head body loopName following fallThrough)
      (planLoop (head.reword words) (reword words body) (words.name loopName)
        (following.map (Stmt.reword words)) (words.name fallThrough)) := by
  have chosen : Commutes words _ _ _ := commutes_labelAfter following fallThrough
  cases head with
  | whileHead condition =>
    refine chosen.bind fun after => (commutes_reportEvent _ _).bind fun _ => .pure ?_
    rw [Successor.name_reword, Successor.promises_reword, exitGuard_reword]
    rfl
  | doHead condition =>
    refine commutes_freshName.bind fun conditionLabel => ?_
    have check : Stmt.ifThen (words.expression condition) [.goto (words.name loopName)] =
      (Stmt.ifThen condition [.goto loopName]).reword words := rfl
    dsimp only
    rw [containsBreak_reword, check]
    split
    · refine chosen.bind fun after => (commutes_reportEvent _ _).bind fun _ => .pure ?_
      have inside := Continuation.ofBlock_map (Stmt.reword words)
        [Stmt.ifThen condition [.goto loopName]]
      rw [Successor.name_reword, Successor.promises_reword, LoopPlan.reword, List.map_append]
      simp only [List.map_cons, List.map_nil, Promise.reword, Pending.reword, ← inside]
      rfl
    · refine (commutes_reportEvent _ _).bind fun _ => .pure ?_
      have behind := Continuation.push_map (Stmt.reword words) following
        ⟨[Stmt.ifThen condition [.goto loopName]], 0, false⟩
      simp only [LoopPlan.reword, List.map_cons, List.map_nil, Promise.reword, Pending.reword,
        ← behind]
      rfl
  | forHead init condition iterator =>
    have step : ∀ iteratorLabel : String,
        (((iterator.map words.expression).toList.map fun iterator =>
          (⟨⟨.ofBlock [.expression iterator, .goto (words.name loopName)],
            words.name iteratorLabel, words.name loopName⟩, false⟩ : Promise)) =
        (iterator.toList.map fun iterator =>
          (⟨⟨.ofBlock [.expression iterator, .goto loopName], iteratorLabel, loopName⟩,
            false⟩ : Promise)).map (Promise.reword words)) := by
      intro iteratorLabel
      cases iterator <;> rfl
    have guard : ∀ label : String,
        ((condition.map words.expression).map (exitGuard (words.name label))).toList =
          Script.reword words (condition.map (exitGuard label)).toList := by
      intro label
      cases condition with
      | none => rfl
      | some condition => exact congrArg (· :: []) (exitGuard_reword label condition)
    refine Commutes.bind (f := words.name) ?_ fun iteratorLabel => chosen.bind fun after =>
      (commutes_reportEvent _ _).bind fun _ => .pure ?_
    · cases iterator with
      | none => exact .pure rfl
      | some iterator => exact commutes_freshName
    · rw [Successor.name_reword, Successor.promises_reword, step, guard, LoopPlan.reword,
        List.map_append]
      rfl

theorem commutes_splitBeforeLoop (loop : Frame Stmt) (rest : Continuation Stmt)
    (fallThrough : String) :
    Commutes words (reword words) (splitBeforeLoop loop rest fallThrough)
      (splitBeforeLoop (loop.map (Stmt.reword words)) (rest.map (Stmt.reword words))
        (words.name fallThrough)) := by
  refine commutes_freshName.bind fun loopTop => (commutes_reportEvent _ _).bind fun _ => ?_
  rw [Continuation.push_map]
  exact (commutes_enqueue apart ⟨rest.push loop, loopTop, fallThrough⟩).bind fun _ => .pure rfl

end Steps

end Unnest.Flatten
