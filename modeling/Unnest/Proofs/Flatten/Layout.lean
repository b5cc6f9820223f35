import Unnest.Proofs.Flatten.Ledger
import Unnest.Proofs.Script.Nodes

/-! What the label after a construct and the layout of a loop promise. Every name that is
made up on the way goes to a promised block, and the code that follows goes to exactly one
of them. -/

namespace Unnest.Flatten
open Script

/-- The block has something to flatten. -/
structure Pending.Ready (block : Pending) : Prop where
  inside : block.continuation.Inside
  more : block.continuation.isEmpty = false

theorem ready_ofBlock {first : Stmt} {others : List Stmt} {name fallThrough : String} :
    Pending.Ready ⟨.ofBlock (first :: others), name, fallThrough⟩ :=
  ⟨Continuation.inside_ofBlock _, rfl⟩

/-- The block starts as its code does: with no loop to resume, and with no label but its own. -/
structure Pending.Plain (block : Pending) : Prop where
  whole : block.continuation.Whole
  own : ∀ first others, block.continuation.remaining = first :: others →
    ∀ label, first.ownLabel = some label → block.name = label

theorem plain_ofBlock {first : Stmt} {others : List Stmt} {name fallThrough : String}
    (own : first.ownLabel = none) : Pending.Plain ⟨.ofBlock (first :: others), name, fallThrough⟩ where
  whole := Continuation.whole_ofBlock _
  own other rest same label declared := by
    rw [Continuation.remaining_ofBlock] at same
    cases same
    rw [own] at declared
    cases declared

theorem ownLabel_eq_some_iff {statement : Stmt} {label : String} :
    statement.ownLabel = some label ↔ ∃ body, statement = .labeled label body := by
  cases statement <;> simp [Stmt.ownLabel]

theorem nameAt_injective (stem : String) : Function.Injective (Mint.nameAt stem) :=
  fun _ _ same => Nat.repr_inj.1 ((String.append_right_inj stem).1 same)

/-- The name is one of those made up between the two ledgers. -/
def MadeUp (stem : String) (ledger later : Ledger) (name : String) : Prop :=
  ∃ index, ledger.minted ≤ index ∧ index < later.minted ∧ name = Mint.nameAt stem index

theorem madeUp_mint {stem : String} {ledger : Ledger} :
    MadeUp stem ledger ledger.mint (ledger.upcoming stem) :=
  ⟨ledger.minted, Nat.le_refl _, Nat.lt_succ_self _, rfl⟩

theorem MadeUp.mono {stem name : String} {first second third fourth : Ledger}
    (made : MadeUp stem second third name) (earlier : first.minted ≤ second.minted)
    (later : third.minted ≤ fourth.minted) : MadeUp stem first fourth name := by
  obtain ⟨index, lower, upper, same⟩ := made
  exact ⟨index, Nat.le_trans earlier lower, Nat.lt_of_lt_of_le upper later, same⟩

section Successor

variable {stem fallThrough : String} {ledger named : Ledger} {after : Successor}

/-- How the label of the following code is chosen. -/
inductive Chosen (stem : String) (ledger : Ledger) (fallThrough : String) :
    List Stmt → Successor → Ledger → Prop where
  | nothing : Chosen stem ledger fallThrough [] (.fallThrough fallThrough) ledger
  | labeled {label : String} {body : Stmt} {rest : List Stmt} :
      Chosen stem ledger fallThrough (.labeled label body :: rest) (.next label) ledger
  | plain {first : Stmt} {rest : List Stmt} (own : first.ownLabel = none) :
      Chosen stem ledger fallThrough (first :: rest) (.fresh (ledger.upcoming stem)) ledger.mint

theorem chosen_of_successor {following : List Stmt}
    (chosen : ledger.successor stem following fallThrough = (after, named)) :
    Chosen stem ledger fallThrough following after named := by
  unfold Ledger.successor at chosen
  cases following with
  | nil =>
    cases chosen
    exact .nothing
  | cons first rest =>
    cases own : first.ownLabel with
    | some label =>
      simp only [own] at chosen
      cases chosen
      obtain ⟨body, rfl⟩ := ownLabel_eq_some_iff.1 own
      exact .labeled
    | none =>
      simp only [own] at chosen
      cases chosen
      exact .plain own

theorem chosen_successor (stem : String) (ledger : Ledger) (following : List Stmt)
    (fallThrough : String) : Chosen stem ledger fallThrough following
      (ledger.successor stem following fallThrough).1
      (ledger.successor stem following fallThrough).2 :=
  chosen_of_successor rfl

theorem Chosen.sent {following : List Stmt}
    (chosen : Chosen stem ledger fallThrough following after named) :
    named.sent = ledger.sent := by
  cases chosen <;> rfl

theorem Chosen.minted {following : List Stmt}
    (chosen : Chosen stem ledger fallThrough following after named) :
    ledger.minted ≤ named.minted := by
  cases chosen <;> simp [Ledger.mint]

end Successor

/-- A loop promises made-up names, each to one block, and the label of the following code. -/
inductive Promised (stem : String) (ledger named : Ledger) (following : List Stmt) :
    Promise → Prop where
  | madeUp {block : Pending} (name : MadeUp stem ledger named block.name) :
      Promised stem ledger named following ⟨block, false⟩
  | labeled {block : Pending} {body : Stmt} {rest : List Stmt}
      (same : block.continuation.remaining = following)
      (ahead : following = .labeled block.name body :: rest) :
      Promised stem ledger named following ⟨block, true⟩

/-- The promises of a construct: ready blocks, every made-up name among them, and the code
that follows in exactly one. -/
structure Promising (stem : String) (ledger named : Ledger) (following : Continuation Stmt)
    (promises : List Promise) : Prop where
  sent : named.sent = ledger.sent
  minted : ledger.minted ≤ named.minted
  ready : following.Inside → ∀ promise ∈ promises, promise.block.Ready
  plain : following.Whole → ∀ promise ∈ promises, promise.block.Plain
  promised : ∀ promise ∈ promises, Promised stem ledger named following.remaining promise
  covers : ∀ name, MadeUp stem ledger named name → ∃ promise ∈ promises, promise.block.name = name
  single : promises.Pairwise fun first second =>
    first.unlessBound = false ∨ second.unlessBound = false
  apart : promises.Pairwise fun first second =>
    first.unlessBound = false → second.unlessBound = false → first.block.name ≠ second.block.name

section Layout

variable {stem fallThrough : String} {ledger named : Ledger} {following : Continuation Stmt}

theorem Chosen.promising {after : Successor}
    (chosen : Chosen stem ledger fallThrough following.remaining after named) :
    Promising stem ledger named following (after.promises following fallThrough) := by
  have busy (inside : following.Inside) (more : following.remaining ≠ []) (name : String) :
      Pending.Ready ⟨following, name, fallThrough⟩ :=
    ⟨inside, (Continuation.isEmpty_eq_false_iff inside).2 more⟩
  have unminted {name : String} (made : MadeUp stem ledger ledger name) : False := by
    obtain ⟨index, lower, upper, _⟩ := made
    omega
  generalize remains : following.remaining = statements at chosen
  cases chosen with
  | nothing =>
    exact ⟨rfl, Nat.le_refl _, nofun, nofun, nofun, fun name made => (unminted made).elim, .nil, .nil⟩
  | labeled =>
    refine ⟨rfl, Nat.le_refl _, ?_, ?_, ?_, fun name made => (unminted made).elim,
      List.pairwise_singleton _ _, List.pairwise_singleton _ _⟩
    · intro inside promise member
      cases List.mem_singleton.1 member
      exact busy inside (by rw [remains]; exact List.cons_ne_nil _ _) _
    · intro whole promise member
      cases List.mem_singleton.1 member
      refine ⟨whole, fun first others same label own => ?_⟩
      cases remains.symm.trans same
      exact Option.some.inj own
    · intro promise member
      cases List.mem_singleton.1 member
      exact .labeled rfl remains
  | plain own =>
    refine ⟨rfl, Nat.le_succ _, ?_, ?_, ?_, ?_, List.pairwise_singleton _ _,
      List.pairwise_singleton _ _⟩
    · intro inside promise member
      cases List.mem_singleton.1 member
      exact busy inside (by rw [remains]; exact List.cons_ne_nil _ _) _
    · intro whole promise member
      cases List.mem_singleton.1 member
      refine ⟨whole, fun first others same label declared => ?_⟩
      cases remains.symm.trans same
      rw [own] at declared
      cases declared
    · intro promise member
      cases List.mem_singleton.1 member
      exact .madeUp madeUp_mint
    · intro name made
      obtain ⟨index, lower, upper, same⟩ := made
      refine ⟨_, List.mem_singleton_self _, ?_⟩
      have exactly : index = ledger.minted := Nat.le_antisymm (Nat.le_of_lt_succ upper) lower
      rw [same, exactly]
      rfl

/-- One more made-up name with a block of its own. -/
theorem Promising.mint (block : Pending) {promises all : List Promise}
    (promising : Promising stem ledger.mint named following promises)
    (name : block.name = ledger.upcoming stem) (ready : following.Inside → block.Ready)
    (plain : following.Whole → block.Plain)
    (together : all.Perm (⟨block, false⟩ :: promises)) :
    Promising stem ledger named following all where
  sent := promising.sent
  minted := Nat.le_of_succ_le promising.minted
  ready inside promise member := by
    rcases List.mem_cons.1 (together.mem_iff.1 member) with rfl | before
    · exact ready inside
    · exact promising.ready inside promise before
  plain whole promise member := by
    rcases List.mem_cons.1 (together.mem_iff.1 member) with rfl | before
    · exact plain whole
    · exact promising.plain whole promise before
  promised promise member := by
    rcases List.mem_cons.1 (together.mem_iff.1 member) with rfl | before
    · apply Promised.madeUp
      rw [name]
      exact madeUp_mint.mono (Nat.le_refl _) promising.minted
    · cases promising.promised promise before with
      | madeUp made => exact .madeUp (made.mono (Nat.le_succ _) (Nat.le_refl _))
      | labeled same ahead => exact .labeled same ahead
  covers other made := by
    obtain ⟨index, lower, upper, same⟩ := made
    rcases Nat.eq_or_lt_of_le lower with first | after
    · exact ⟨_, together.mem_iff.2 (List.mem_cons_self ..), by rw [name, same, ← first]; rfl⟩
    · obtain ⟨promise, member, named⟩ := promising.covers other ⟨index, after, upper, same⟩
      exact ⟨promise, together.mem_iff.2 (List.mem_cons_of_mem _ member), named⟩
  single := by
    rw [together.pairwise_iff fun apart => apart.symm, List.pairwise_cons]
    exact ⟨fun _ _ => .inl rfl, promising.single⟩
  apart := by
    rw [together.pairwise_iff fun apart firm also => (apart also firm).symm, List.pairwise_cons]
    refine ⟨fun promise before _ firm same => ?_, promising.apart⟩
    cases promising.promised promise before with
    | labeled => cases firm
    | madeUp made =>
      obtain ⟨index, lower, _, other⟩ := made
      have first := nameAt_injective stem (name.symm.trans (same.trans other))
      exact Nat.lt_irrefl _ (first ▸ lower)

theorem layout_promising {head : LoopHead} {body : List Stmt} {loopName : String}
    {plan : LoopPlan}
    (planned : layout stem head body loopName following fallThrough ledger = (plan, named)) :
    Promising stem ledger named following plan.promises := by
  cases head with
  | whileHead condition =>
    cases planned
    exact (chosen_successor ..).promising
  | doHead condition =>
    unfold layout at planned
    cases breaks : containsBreak body with
    | true =>
      simp only [breaks, if_true] at planned
      cases planned
      apply (chosen_successor stem ledger.mint following.remaining fallThrough).promising.mint
        ⟨.ofBlock [loopCheck condition loopName], ledger.upcoming stem,
          (ledger.mint.successor stem following.remaining fallThrough).1.name⟩ rfl
        (fun _ => ready_ofBlock) (fun _ => plain_ofBlock rfl)
      exact List.perm_append_singleton _ _
    | false =>
      simp only [breaks, Bool.false_eq_true, if_false] at planned
      cases planned
      have none : Promising stem ledger.mint ledger.mint following [] :=
        ⟨rfl, Nat.le_refl _, nofun, nofun, nofun, fun name made => by
          obtain ⟨index, lower, upper, _⟩ := made
          omega, .nil, .nil⟩
      apply none.mint ⟨following.push ⟨[loopCheck condition loopName], 0, false⟩,
        ledger.upcoming stem, fallThrough⟩ rfl
        (fun inside => ⟨Continuation.inside_push inside _, Continuation.isEmpty_push _ Nat.zero_lt_one⟩)
        (fun whole => ⟨Continuation.whole_push whole rfl, fun first others same label own => by
          rw [Continuation.remaining_push] at same
          cases same
          cases own⟩)
      exact .refl _
  | forHead init condition iterator =>
    cases iterator with
    | none =>
      cases planned
      exact (chosen_successor ..).promising
    | some iterator =>
      cases planned
      apply (chosen_successor stem ledger.mint following.remaining fallThrough).promising.mint
        ⟨.ofBlock [.expression iterator, .goto loopName], ledger.upcoming stem, loopName⟩
        rfl (fun _ => ready_ofBlock) (fun _ => plain_ofBlock rfl)
      exact .refl _

/-- Only a loop without breaks of its own has no place for them to go. -/
theorem layout_breakTo {head : LoopHead} {body : List Stmt} {loopName : String}
    {plan : LoopPlan}
    (planned : layout stem head body loopName following fallThrough ledger = (plan, named))
    (nowhere : plan.targets.breakTo = none) : containsBreak body = false := by
  cases head with
  | whileHead condition =>
    cases planned
    cases nowhere
  | doHead condition =>
    unfold layout at planned
    cases breaks : containsBreak body with
    | true =>
      simp only [breaks, if_true] at planned
      cases planned
      cases nowhere
    | false => rfl
  | forHead init condition iterator =>
    cases planned
    cases nowhere

/-- What stands before the body of a loop leaves it when its condition fails. -/
theorem layout_guard {head : LoopHead} {body : List Stmt} {loopName : String} {plan : LoopPlan}
    (planned : layout stem head body loopName following fallThrough ledger = (plan, named)) :
    ∀ statement ∈ plan.guard, ∃ label condition, statement = exitGuard label condition := by
  cases head with
  | whileHead condition =>
    cases planned
    intro statement member
    exact ⟨_, _, List.mem_singleton.1 member⟩
  | doHead condition =>
    unfold layout at planned
    cases breaks : containsBreak body
    all_goals
      simp only [breaks, if_true, Bool.false_eq_true, if_false] at planned
      cases planned
      nofun
  | forHead init condition iterator =>
    cases planned
    cases condition with
    | none => nofun
    | some condition =>
      intro statement member
      exact ⟨_, _, List.mem_singleton.1 member⟩

/-- The code that follows a construct is in exactly one of the promised blocks. What else is
promised is made up, and nothing can be read off it. -/
theorem Chosen.conserves {β : Type} (read : Stmt → List β) {after : Successor}
    (chosen : Chosen stem ledger fallThrough following.remaining after named) :
    ((after.promises following fallThrough).flatMap fun promise =>
      promise.block.continuation.remaining.flatMap read) = following.remaining.flatMap read := by
  generalize remains : following.remaining = statements at chosen
  cases chosen <;> simp [Successor.promises, remains]

/-- The iterator of a loop, as the statement that it becomes. -/
def LoopHead.step : LoopHead → List Stmt
  | .forHead _ _ iterator => iterator.toList.map .expression
  | _ => []

/-- The promised blocks hold the iterator of the loop and the code that follows it. -/
theorem layout_reads {β : Type} (read : Stmt → List β) {head : LoopHead} {body : List Stmt}
    {loopName : String} {plan : LoopPlan} (jump : ∀ label, read (.goto label) = [])
    (check : ∀ condition, read (loopCheck condition loopName) = [])
    (planned : layout stem head body loopName following fallThrough ledger = (plan, named)) :
    (plan.promises.flatMap fun promise => promise.block.continuation.remaining.flatMap read) =
      head.step.flatMap read ++ following.remaining.flatMap read := by
  cases head with
  | whileHead condition =>
    cases planned
    exact (chosen_successor ..).conserves read
  | doHead condition =>
    unfold layout at planned
    cases breaks : containsBreak body with
    | true =>
      simp only [breaks, if_true] at planned
      cases planned
      rw [List.flatMap_append, (chosen_successor ..).conserves read]
      simp [check, LoopHead.step]
    | false =>
      simp only [breaks, Bool.false_eq_true, if_false] at planned
      cases planned
      simp [check, Frame.remaining, LoopHead.step]
  | forHead init condition iterator =>
    cases iterator with
    | none =>
      cases planned
      exact (chosen_successor ..).conserves read
    | some iterator =>
      cases planned
      have conserved := (chosen_successor stem ledger.mint following.remaining
        fallThrough).conserves read
      rw [List.flatMap_append]
      refine (congrArg (_ ++ ·) conserved).trans ?_
      simp [jump, LoopHead.step]

theorem layout_conserves {β : Type} (read : Stmt → List β) {head : LoopHead} {body : List Stmt}
    {loopName : String} {plan : LoopPlan}
    (jump : ∀ label, read (.goto label) = []) (step : ∀ value, read (.expression value) = [])
    (check : ∀ condition, read (loopCheck condition loopName) = [])
    (planned : layout stem head body loopName following fallThrough ledger = (plan, named)) :
    (plan.promises.flatMap fun promise => promise.block.continuation.remaining.flatMap read) =
      following.remaining.flatMap read := by
  have nothing : head.step.flatMap read = [] := by cases head <;> simp [LoopHead.step, step]
  rw [layout_reads read jump check planned, nothing, List.nil_append]

theorem Chosen.resumes {after : Successor}
    (chosen : Chosen stem ledger fallThrough following.remaining after named) :
    following.remaining = [] ∨
      ⟨⟨following, after.name, fallThrough⟩, after == .next after.name⟩ ∈
        after.promises following fallThrough := by
  generalize following.remaining = remains at chosen
  cases chosen with
  | nothing => exact .inl rfl
  | labeled => exact .inr (by simp [Successor.promises, Successor.name])
  | plain own => exact .inr (by simp [Successor.promises, Successor.name])

/-- The code that follows a loop goes on in one of the promised blocks, behind the check of
the loop if need be. -/
theorem layout_resumes {head : LoopHead} {body : List Stmt} {loopName : String}
    {plan : LoopPlan}
    (planned : layout stem head body loopName following fallThrough ledger = (plan, named)) :
    following.remaining = [] ∨ ∃ promise ∈ plan.promises,
      promise.block.continuation = following ∨ ∃ condition,
        promise.block.continuation = following.push ⟨[loopCheck condition loopName], 0, false⟩ := by
  have direct {ledger named : Ledger} {after : Successor} {promises : List Promise}
      (chosen : Chosen stem ledger fallThrough following.remaining after named)
      (within : after.promises following fallThrough ⊆ promises) :
      following.remaining = [] ∨ ∃ promise ∈ promises,
        promise.block.continuation = following ∨ ∃ condition,
          promise.block.continuation = following.push ⟨[loopCheck condition loopName], 0, false⟩ :=
    chosen.resumes.imp_right fun member => ⟨_, within member, .inl rfl⟩
  cases head with
  | whileHead condition =>
    cases planned
    exact direct (chosen_successor ..) (List.Subset.refl _)
  | doHead condition =>
    unfold layout at planned
    cases breaks : containsBreak body with
    | true =>
      simp only [breaks, if_true] at planned
      cases planned
      exact direct (chosen_successor ..) (List.subset_append_left _ _)
    | false =>
      simp only [breaks, Bool.false_eq_true, if_false] at planned
      cases planned
      exact .inr ⟨_, List.mem_singleton_self _, .inr ⟨condition, rfl⟩⟩
  | forHead init condition iterator =>
    cases planned
    exact direct (chosen_successor ..) (List.subset_append_right _ _)

end Layout

end Unnest.Flatten
