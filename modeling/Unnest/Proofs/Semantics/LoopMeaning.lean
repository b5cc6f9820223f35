import Unnest.Proofs.Flatten.HandsOn
import Unnest.Proofs.Semantics.Due

/-! What a loop means that is taken apart. The three kinds of loops are one equation: control
enters the loop, runs its body and comes back to the top. The layout of a loop has a block or a
jump for each part of the equation. -/

namespace Unnest.Flatten
open Script

universe u

variable {σ : Type u} {meant : Interpretation σ} {exits : Exits σ}

namespace LoopHead

/-- From the top of a loop, control runs the body or leaves. -/
def enter (meant : Interpretation σ) (behind body : Sights σ) : LoopHead → Sights σ
  | .whileHead condition => tested meant condition body behind
  | .doHead _ => body
  | .forHead _ condition _ => guarded meant condition body behind

/-- From the end of the body of a loop, control comes back to the top or leaves. -/
def again (meant : Interpretation σ) (behind top : Sights σ) : LoopHead → Sights σ
  | .whileHead _ => top
  | .doHead condition => tested meant condition top behind
  | .forHead _ _ iterator => stepped meant iterator top

/-- One round of a loop, from its top back to its top. -/
def round (meant : Interpretation σ) (exits : Exits σ) (head : LoopHead) (body : List Stmt)
    (top : Sights σ) : Sights σ :=
  head.enter meant exits.falls
    (Script.meaning meant (exits.within (head.again meant exits.falls top)) body)

variable {behind behind' top top' body body' : Sights σ}

theorem enter_mono (head : LoopHead) (behinds : behind ≤ behind') (bodies : body ≤ body') :
    head.enter meant behind body ≤ head.enter meant behind' body' := by
  cases head with
  | whileHead condition => exact tested_mono bodies behinds
  | doHead condition => exact bodies
  | forHead init condition iterator => exact guarded_mono bodies behinds

theorem again_mono (head : LoopHead) (behinds : behind ≤ behind') (tops : top ≤ top') :
    head.again meant behind top ≤ head.again meant behind' top' := by
  cases head with
  | whileHead condition => exact tops
  | doHead condition => exact tested_mono tops behinds
  | forHead init condition iterator => exact stepped_mono tops

theorem round_mono (head : LoopHead) (body : List Stmt) :
    Monotone (head.round meant exits body) := fun _ _ tops =>
  head.enter_mono le_rfl (within_mono exits body (head.again_mono le_rfl tops))

end LoopHead

section Loop

variable {loop : Stmt} {head : LoopHead} {body : List Stmt} {afterInit : Bool}

/-- A loop behind its initializer, or without one. -/
theorem dueOf_forLoop {init : Stmt} {condition iterator : Option Expr}
    (ready : (LoopHead.forHead init condition iterator).pendingInit afterInit = []) :
    dueOf afterInit (.forLoop init condition iterator body) =
      .forLoop .empty condition iterator body := by
  cases afterInit with
  | true => rfl
  | false => cases init <;> first | rfl | cases ready

/-- A loop means the least solution of the equation for its rounds. -/
theorem meaning_dueOf_loop (isLoop : loopOf loop = some (head, body))
    (ready : head.pendingInit afterInit = []) :
    (dueOf afterInit loop).meaning meant exits = least (head.round meant exits body) := by
  cases loop <;> simp only [loopOf, reduceCtorEq, Option.some.injEq, Prod.mk.injEq] at isLoop <;>
    obtain ⟨rfl, rfl⟩ := isLoop
  · cases afterInit <;> rfl
  · next body condition =>
    rw [dueOf_of_resumed rfl]
    -- the loop is a body and then tests and bodies by turns, as it is bodies and tests by turns
    let bodies : Sights σ →o Sights σ :=
      ⟨fun again => Script.meaning meant (exits.within again) body, within_mono exits body⟩
    let tests : Sights σ →o Sights σ :=
      ⟨fun top => tested meant condition top exits.falls, fun _ _ tops => tested_mono tops le_rfl⟩
    exact OrderHom.map_lfp_comp bodies tests
  · next init condition iterator body =>
    rw [dueOf_forLoop ready]
    rfl

/-- A loop is one round and then the loop again. -/
theorem meaning_dueOf_round (isLoop : loopOf loop = some (head, body))
    (ready : head.pendingInit afterInit = []) :
    head.round meant exits body ((dueOf afterInit loop).meaning meant exits) =
      (dueOf afterInit loop).meaning meant exits := by
  rw [meaning_dueOf_loop isLoop ready]
  exact least_eq (head.round_mono body)

/-- The labels in a loop are in its body, which goes on with the loop. -/
theorem entries_dueOf_loop (isLoop : loopOf loop = some (head, body))
    (ready : head.pendingInit afterInit = []) :
    (dueOf afterInit loop).entries meant exits = Script.entries meant
      (exits.within (head.again meant exits.falls ((dueOf afterInit loop).meaning meant exits)))
      body := by
  cases loop <;> simp only [loopOf, reduceCtorEq, Option.some.injEq, Prod.mk.injEq] at isLoop <;>
    obtain ⟨rfl, rfl⟩ := isLoop
  · cases afterInit <;> rfl
  · next body condition =>
    rw [dueOf_of_resumed rfl, Stmt.entries, Stmt.meaning_whileLoop]
    rfl
  · next init condition iterator body =>
    rw [dueOf_forLoop ready]
    rfl

/-- A loop is its initializer and then the loop behind it. -/
theorem meaning_dueOf_init (isLoop : loopOf loop = some (head, body)) (frame : Frame Stmt) :
    (dueOf frame.afterInit loop).meaning meant exits = Script.meaning meant
      { exits with falls := (dueOf (head.resumption frame).afterInit loop).meaning meant exits }
      (head.pendingInit frame.afterInit) := by
  cases loop <;> simp only [loopOf, reduceCtorEq, Option.some.injEq, Prod.mk.injEq] at isLoop <;>
    obtain ⟨rfl, rfl⟩ := isLoop
  · rfl
  · rfl
  · next init condition iterator body =>
    cases after : frame.afterInit with
    | true => cases init <;> rfl
    | false => cases init <;> rfl

/-- The labels in a loop are those behind its initializer. -/
theorem entries_dueOf_init (isLoop : loopOf loop = some (head, body))
    (plainInit : head.labeledInit = none) (frame : Frame Stmt) :
    (dueOf frame.afterInit loop).entries meant exits =
      (dueOf (head.resumption frame).afterInit loop).entries meant exits := by
  cases loop <;> simp only [loopOf, reduceCtorEq, Option.some.injEq, Prod.mk.injEq] at isLoop <;>
    obtain ⟨rfl, rfl⟩ := isLoop
  · rfl
  · rfl
  · next init condition iterator body =>
    have free : init.containsLabels = false := by
      simpa [LoopHead.labeledInit] using plainInit
    cases after : frame.afterInit with
    | true => rfl
    | false =>
      show Stmt.entries meant _ init ++ _ = _
      rw [Stmt.entries_of_free free]
      rfl

end Loop

section Layout

variable {stem fallThrough loopName : String} {ledger named : Ledger}
  {following : Continuation Stmt} {shows : String → Sights σ}
  {head : LoopHead} {body : List Stmt} {plan : LoopPlan}

/-- The layout of a loop is its equation, in terms of what the labels stand for. What is behind
the loop, and where a round goes on, is shown by the label itself or by the block promised
under it. -/
structure Laid (meant : Interpretation σ) (shows : String → Sights σ) (head : LoopHead)
    (loopName : String) (ahead : Sights σ) (plan : LoopPlan) (behind : Sights σ) : Prop where
  falls : behind = ahead ∨ ∃ promise ∈ plan.promises,
    promise.block.meaning meant shows = ahead ∧ shows promise.block.name = behind
  guard : ∀ exits : Exits σ, exits.goto = shows → ∀ flat,
    Script.meaning meant exits (plan.guard ++ flat) =
      head.enter meant behind (Script.meaning meant exits flat)
  breaks : ∀ target, plan.targets.breakTo = some target → shows target = behind
  continues : shows plan.targets.continueTo = head.again meant behind (shows loopName) ∨
    ∃ promise ∈ plan.promises, promise.block.name = plan.targets.continueTo ∧
      promise.block.meaning meant shows = head.again meant behind (shows loopName)

theorem meaning_exitGuard (negates : meant.Negates) (label : String) (condition : Expr)
    (flat : List Stmt) : Script.meaning meant exits (exitGuard label condition :: flat) =
      tested meant condition (Script.meaning meant exits flat) (exits.goto label) :=
  tested_negate negates condition (exits.goto label) (Script.meaning meant exits flat)

/-- The body of a loop means the same in its block, where its jumps lead to the labels. -/
theorem Laid.sameMeaning {ahead behind : Sights σ}
    (laid : Laid meant shows head loopName ahead plan behind)
    {redirected : List Stmt} (redirects : redirect plan.targets body = .ok redirected)
    (reached : ∀ statement ∈ body, ∀ jump, hidden jump statement = false)
    (nowhere : plan.targets.breakTo = none → containsBreak body = false) (fallThrough : String) :
    SameMeaning meant redirected body (leading shows plan.targets.continueTo)
      (Exits.within { leading shows fallThrough with falls := behind }
        (shows plan.targets.continueTo)) :=
  sameMeaning_of_redirect redirects reached nowhere ⟨rfl, laid.breaks, rfl, rfl⟩

/-- The label after a construct stands for what follows it, or a block promised under it means it. -/
theorem Chosen.behind {after : Successor}
    (chosen : Chosen stem ledger fallThrough following.remaining after named)
    (whole : following.Whole) :
    shows after.name = Script.meaning meant (leading shows fallThrough) following.remaining ∨
      ∃ promise ∈ after.promises following fallThrough, promise.block.meaning meant shows =
          Script.meaning meant (leading shows fallThrough) following.remaining ∧
        shows promise.block.name = shows after.name := by
  have means (name : String) : Pending.meaning meant shows ⟨following, name, fallThrough⟩ =
      Script.meaning meant (leading shows fallThrough) following.remaining := by
    rw [Pending.meaning, due_of_whole whole]
  generalize remains : following.remaining = statements at chosen means ⊢
  cases chosen with
  | nothing => exact .inl rfl
  | labeled => exact .inr ⟨_, List.mem_singleton_self _, means _, rfl⟩
  | plain own => exact .inr ⟨_, List.mem_singleton_self _, means _, rfl⟩

theorem layout_laid (negates : meant.Negates) (whole : following.Whole)
    (planned : layout stem head body loopName following fallThrough ledger = (plan, named)) :
    ∃ behind, Laid meant shows head loopName
      (Script.meaning meant (leading shows fallThrough) following.remaining) plan behind := by
  cases head with
  | whileHead condition =>
    cases planned
    have chosen := chosen_successor stem ledger following.remaining fallThrough
    refine ⟨shows (ledger.successor stem following.remaining fallThrough).1.name,
      chosen.behind whole, ?_, ?_, .inl rfl⟩
    · rintro exits rfl flat
      exact meaning_exitGuard negates _ condition flat
    · rintro target ⟨⟩
      rfl
  | doHead condition =>
    unfold layout at planned
    cases breaks : containsBreak body with
    | true =>
      simp only [breaks, if_true] at planned
      cases planned
      have chosen := chosen_successor stem ledger.mint following.remaining fallThrough
      refine ⟨shows (ledger.mint.successor stem following.remaining fallThrough).1.name,
        ?_, fun _ _ _ => rfl, ?_,
        .inr ⟨_, List.mem_append_right _ (List.mem_singleton_self _), rfl, ?_⟩⟩
      · refine (chosen.behind whole).imp_right ?_
        rintro ⟨promise, member, means⟩
        exact ⟨promise, List.mem_append_left _ member, means⟩
      · rintro target ⟨⟩
        rfl
      · exact Pending.meaning_ofBlock ..
    | false =>
      simp only [breaks, Bool.false_eq_true, if_false] at planned
      cases planned
      refine ⟨_, .inl rfl, fun _ _ _ => rfl, nofun, .inr ⟨_, List.mem_singleton_self _, rfl, ?_⟩⟩
      rw [Pending.meaning, due_push_single]
      rfl
  | forHead init condition iterator =>
    have guard {label : String} : ∀ exits : Exits σ, exits.goto = shows → ∀ flat,
        Script.meaning meant exits ((condition.map (exitGuard label)).toList ++ flat) =
          (LoopHead.forHead init condition iterator).enter meant (shows label)
            (Script.meaning meant exits flat) := by
      rintro exits rfl flat
      cases condition with
      | none => rfl
      | some condition => exact meaning_exitGuard negates _ condition flat
    cases iterator with
    | none =>
      cases planned
      have chosen := chosen_successor stem ledger following.remaining fallThrough
      refine ⟨_, chosen.behind whole, guard, ?_, .inl rfl⟩
      rintro target ⟨⟩
      rfl
    | some iterator =>
      cases planned
      have chosen := chosen_successor stem ledger.mint following.remaining fallThrough
      refine ⟨_, ?_, guard, ?_, .inr ⟨_, List.mem_cons_self .., rfl, Pending.meaning_ofBlock ..⟩⟩
      · refine (chosen.behind whole).imp_right ?_
        rintro ⟨promise, member, means⟩
        exact ⟨promise, List.mem_append_right _ member, means⟩
      · rintro target ⟨⟩
        rfl

theorem Chosen.entries {after : Successor}
    (chosen : Chosen stem ledger fallThrough following.remaining after named)
    (whole : following.Whole) : ((after.promises following fallThrough).flatMap fun promise =>
        promise.block.entries meant shows) =
      Script.entries meant (leading shows fallThrough) following.remaining := by
  have same (name : String) : Pending.entries meant shows ⟨following, name, fallThrough⟩ =
      Script.entries meant (leading shows fallThrough) following.remaining := by
    rw [Pending.entries, due_of_whole whole]
  generalize remains : following.remaining = statements at chosen same ⊢
  cases chosen with
  | nothing => rfl
  | labeled | plain own => exact (List.append_nil _).trans (same _)

/-- The promised blocks have the labels of the code behind the loop. -/
theorem layout_entries (whole : following.Whole)
    (planned : layout stem head body loopName following fallThrough ledger = (plan, named)) :
    (plan.promises.flatMap fun promise => promise.block.entries meant shows) =
      Script.entries meant (leading shows fallThrough) following.remaining := by
  cases head with
  | whileHead condition =>
    cases planned
    exact (chosen_successor ..).entries whole
  | doHead condition =>
    unfold layout at planned
    cases breaks : containsBreak body with
    | true =>
      simp only [breaks, if_true] at planned
      cases planned
      rw [List.flatMap_append, (chosen_successor ..).entries whole, List.flatMap_singleton,
        Pending.entries_ofBlock]
      exact List.append_nil _
    | false =>
      simp only [breaks, Bool.false_eq_true, if_false] at planned
      cases planned
      rw [List.flatMap_singleton, Pending.entries, due_push_single]
      rfl
  | forHead init condition iterator =>
    cases iterator with
    | none =>
      cases planned
      exact (chosen_successor ..).entries whole
    | some iterator =>
      cases planned
      refine (List.flatMap_append ..).trans ?_
      refine (congrArg (_ ++ ·) ((chosen_successor ..).entries whole)).trans ?_
      rw [Option.toList_some, List.map_singleton, List.flatMap_singleton, Pending.entries_ofBlock]
      rfl

end Layout

end Unnest.Flatten
