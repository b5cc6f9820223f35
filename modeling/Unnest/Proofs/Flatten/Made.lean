import Unnest.Flatten.Blocks
import Unnest.Proofs.Flatten.Begins
import Unnest.Proofs.Flatten.Minting

/-! A whole run of flattening, one block after another in the order in which they were
scheduled. What holds between two blocks is kept by each, so a run never meets a label that
is bound already and never runs out of blocks to make. -/

namespace Unnest.Flatten
open Script

/-- From the ledger on, the blocks are made one after another. -/
inductive Made (stem : String) : Nat → Ledger → List LabeledBlock → Nat → Ledger → Prop where
  | stops {done : Nat} {ledger : Ledger} : Made stem done ledger [] done ledger
  | makes {done last : Nat} {ledger between later : Ledger} {block : Pending} {out : List Stmt}
      {others : List LabeledBlock} (waits : ledger.sent[done]? = some block)
      (placed : Placed stem ledger block.continuation block.fallThrough (.blockStart block.name)
        out between)
      (made : Made stem (done + 1) between others last later) :
      Made stem done ledger (⟨block.name, out⟩ :: others) last later

/-- What holds between two blocks of the run for a body. -/
structure Steady (stem : String) (body : List Stmt) (done : Nat) (ledger : Ledger) : Prop where
  started : done ≤ ledger.sent.length
  inside : ∀ block ∈ ledger.sent, block.continuation.Inside
  begun : ∀ block ∈ ledger.sent.drop done,
    Begun stem ledger (.blockStart block.name) block.continuation
  apart : ((ledger.sent.drop done).flatMap Pending.labels).Nodup
  declared : ∀ block ∈ ledger.sent.drop done, block.labels ⊆ labels body
  names : ∀ name ∈ ledger.names, name ∈ labels body ∨
    ∃ index < ledger.minted, name = Mint.nameAt stem index
  distinct : ledger.names.Nodup
  within : ledger.minted + dues (ledger.sent.drop done) ≤
    1 + mints body + credits ledger (ledger.sent.drop done)

section Steady

variable {stem : String} {body : List Stmt} {done : Nat} {ledger between later : Ledger}
  {block : Pending} {out : List Stmt}

/-- Every block that is scheduled while code is placed is at positions inside its code. -/
theorem Placed.inside {fallThrough : String} {code : Continuation Stmt} {spot : Spot}
    (placed : Placed stem ledger code fallThrough spot out later) (inside : code.Inside) :
    Sends (fun block => block.continuation.Inside) ledger later := by
  induction placed with
  | ends nothing => exact Sends.none rfl
  | opens met owned arrival sent => exact Sends.ofSend sent inside
  | unwraps met owned arrival placed ih =>
    exact ih (Continuation.inside_push (met.inside_following inside) _)
  | copies met owned arrival free plain placed ih => exact ih (met.inside_following inside)
  | splices met owned arrival labeled placed ih =>
    exact ih (Continuation.inside_push (met.inside_following inside) _)
  | @branches ledger named between settled further later code rest frame current test thenBody
      elseBody fallThrough spot after _ _ _ met owned arrival labeled chosen thenPlaced elsePlaced settles
      placed ihThen ihElse ih =>
    have followingInside := met.inside_following inside
    have leftoverInside : (after.leftover (rest.pushFollowing frame)).Inside := by
      cases after with
      | fresh name => exact Continuation.inside_empty
      | next | fallThrough => exact followingInside
    have bodies := (ihThen (Continuation.inside_ofBlock _)).trans (ihElse (Continuation.inside_ofBlock _))
    exact (bodies.trans (.trans (.settle settles fun _ _ => followingInside) (ih leftoverInside))).since
      (chosen_of_successor chosen).sent
  | inlines met owned arrival labeled isLoop plainInit start ready planned redirects placed kept ih =>
    have promising := layout_promising planned
    have inBody := ih (Continuation.inside_ofBlock _)
    apply (inBody.trans (.ofSendAll kept _)).since promising.sent
    rw [List.forall_mem_map]
    exact fun promise inPlan =>
      (promising.ready (met.inside_following inside) promise inPlan).inside
  | splits met owned arrival labeled isLoop plainInit unready sent =>
    exact (Sends.ofSend sent (Continuation.inside_push (met.inside_rest inside) _)).since rfl

theorem drop_of_waits (waits : ledger.sent[done]? = some block) :
    ledger.sent.drop done = block :: ledger.sent.drop (done + 1) := by
  obtain ⟨bound, value⟩ := List.getElem?_eq_some_iff.1 waits
  rw [List.drop_eq_getElem_cons bound, value]

/-- The blocks scheduled while one is made wait behind the others. -/
theorem drop_of_sent {more : List Pending} (waits : ledger.sent[done]? = some block)
    (sent : between.sent = ledger.sent ++ more) :
    between.sent.drop (done + 1) = ledger.sent.drop (done + 1) ++ more := by
  rw [sent, List.drop_append_of_le_length (List.getElem?_eq_some_iff.1 waits).1]

theorem name_ne_of_sent {more : List Pending} (distinct : later.names.Nodup)
    (sent : later.sent = ledger.sent ++ more) {old new : Pending} (before : old ∈ ledger.sent)
    (after : new ∈ more) : old.name ≠ new.name := by
  rw [names_of_sent sent] at distinct
  exact (List.nodup_append.1 distinct).2.2 _ (List.mem_map_of_mem before) _
    (List.mem_map_of_mem after)

theorem mem_labels_of_named {label : String} (named : block.Named stem)
    (unmade : ∀ index, label ≠ Mint.nameAt stem index) (same : label = block.name) :
    label ∈ block.labels ∧
      ∃ body rest, block.continuation.remaining = .labeled label body :: rest := by
  rcases named with ⟨index, made⟩ | ⟨body, rest, ahead⟩
  · exact absurd (same.trans made) (unmade index)
  · subst same
    exact ⟨by rw [Pending.labels, ahead]; simp, body, rest, ahead⟩

/-- A label that two blocks still have to come to is the label of one block only. -/
theorem same_block {blocks : List Pending} (apart : (blocks.flatMap Pending.labels).Nodup)
    {first second : Pending} {label : String} (inBlocks : first ∈ blocks) (also : second ∈ blocks)
    (inFirst : label ∈ first.labels) (inSecond : label ∈ second.labels) : first = second := by
  by_contra different
  have symmetric : Std.Symm (Function.onFun List.Disjoint Pending.labels) :=
    ⟨fun _ _ disjoint _ inSecond inFirst => disjoint inFirst inSecond⟩
  exact (List.nodup_flatMap.1 apart).2.forall inBlocks also different inFirst inSecond

/-- A label of a block that is scheduled on the way is bound only if the block starts with it. -/
theorem Placed.fresh_sent {fallThrough : String} {code : Continuation Stmt} {spot : Spot}
    {more : List Pending} (placed : Placed stem ledger code fallThrough spot out later)
    (fresh : Fresh stem ledger.names code.remaining) (distinct : later.names.Nodup)
    (sent : later.sent = ledger.sent ++ more) :
    ∀ other ∈ more, Fresh stem later.names other.continuation.remaining := by
  obtain ⟨others, spent, sent', conserved, _, named⟩ := placed.hands
  have same : others = more := List.append_cancel_left (sent'.symm.trans sent)
  subst same
  have apart := (List.nodup_append.1 (conserved.nodup_iff.1 fresh.distinct)).2.1
  intro other member
  have before : Fresh stem ledger.names other.continuation.remaining :=
    (placed.fresh fresh other (sent ▸ List.mem_append_right _ member)).resolve_left
      fun earlier => name_ne_of_sent distinct sent earlier member rfl
  refine ⟨before.distinct, before.named, fun label declared bound => ?_⟩
  rw [names_of_sent sent, List.mem_append, List.mem_map] at bound
  rcases bound with taken | ⟨owner, claimed, same⟩
  · exact before.unbound label declared taken
  · obtain ⟨owns, ahead⟩ :=
      mem_labels_of_named (named owner claimed) (before.named label declared) same.symm
    rwa [same_block apart member claimed declared owns]

/-- Making one block keeps what holds between two blocks. -/
theorem Steady.step (steady : Steady stem body done ledger)
    (waits : ledger.sent[done]? = some block)
    (placed : Placed stem ledger block.continuation block.fallThrough (.blockStart block.name) out
      between) : Steady stem body (done + 1) between := by
  have split := drop_of_waits waits
  obtain ⟨started, inside, begun, apart, declared, names, distinct, within⟩ := steady
  rw [split] at begun apart declared within
  have here := (begun block (List.mem_cons_self ..)).fresh
  have grows := placed.grows
  obtain ⟨more, spent, sent, conserved, _, _⟩ := placed.hands
  have dropped := drop_of_sent waits sent
  have distinct' := grows.distinct distinct
  have inBlock : ∀ other ∈ more, other.labels ⊆ block.labels := by
    intro other member label inOther
    apply conserved.mem_iff.2
    exact List.mem_append_right _ (List.mem_flatMap.2 ⟨other, member, inOther⟩)
  obtain ⟨apartBlock, apartRest, apartBoth⟩ := List.nodup_append.1 apart
  have apartMore := (List.nodup_append.1 (conserved.nodup_iff.1 apartBlock)).2.1
  refine ⟨?_, ?_, ?_, ?_, ?_, ?_, distinct', ?_⟩
  · rw [sent, List.length_append]
    exact Nat.le_add_right_of_le (List.getElem?_eq_some_iff.1 waits).1
  · intro other member
    exact (placed.inside (inside block (List.mem_of_getElem? waits)) other member).elim
      (inside other) id
  · intro other member
    rw [dropped, List.mem_append] at member
    rcases member with old | new
    · apply (begun other (List.mem_cons_of_mem _ old)).grown grows
      intro label inOther inCode
      exact apartBoth label inCode label (List.mem_flatMap.2 ⟨other, old, inOther⟩) rfl
    · have begins := (placed.begins other (sent ▸ List.mem_append_right _ new)).resolve_left
        fun earlier => name_ne_of_sent distinct' sent earlier new rfl
      exact begins.begun (placed.fresh_sent here distinct' sent other new)
  · rw [dropped, List.flatMap_append]
    refine List.nodup_append.2 ⟨apartRest, apartMore, ?_⟩
    intro label inRest other inMore same
    obtain ⟨owner, claimed, declares⟩ := List.mem_flatMap.1 inMore
    exact apartBoth other (inBlock owner claimed declares) label inRest same.symm
  · intro other member
    rw [dropped, List.mem_append] at member
    rcases member with old | new
    · exact declared other (List.mem_cons_of_mem _ old)
    · exact List.Subset.trans (inBlock other new) (declared block (List.mem_cons_self ..))
  · intro name member
    rcases grows.names name member with before | inCode | ⟨index, _, upper, same⟩
    · rcases names name before with label | ⟨index, upper, same⟩
      · exact .inl label
      · exact .inr ⟨index, Nat.lt_of_lt_of_le upper grows.minted, same⟩
    · exact .inl (declared block (List.mem_cons_self ..) inCode)
    · exact .inr ⟨index, upper, same⟩
  · obtain ⟨budget, ⟨others, sent', spends⟩, spare⟩ := placed.spends
    have same : others = more := List.append_cancel_left (sent'.symm.trans sent)
    subst same
    have credited := credits_mono sent (ledger.sent.drop (done + 1))
    rw [dropped]
    simp only [dues, credits, List.map_append, List.sum_append, List.map_cons, List.sum_cons,
      Spot.blockStart, Option.isSome_some, if_true] at *
    omega

theorem Made.steady {blocks : List LabeledBlock} {last : Nat}
    (made : Made stem done ledger blocks last later) (steady : Steady stem body done ledger) :
    Steady stem body last later := by
  induction made with
  | stops => exact steady
  | makes waits placed made ih => exact ih (steady.step waits placed)

theorem Made.last {blocks : List LabeledBlock} {last : Nat}
    (made : Made stem done ledger blocks last later) : last = done + blocks.length := by
  induction made with
  | stops => rfl
  | makes waits placed made ih =>
    rw [ih, List.length_cons]
    omega

theorem credits_le_dues {blocks : List Pending}
    (inside : ∀ block ∈ blocks, block.continuation.Inside) : credits ledger blocks ≤ dues blocks := by
  induction blocks with
  | nil => exact Nat.le_refl _
  | cons block rest ih =>
    have here := startsLoop_le_mints ledger.isBound (inside block (List.mem_cons_self ..))
    have others := ih fun other member => inside other (List.mem_cons_of_mem _ member)
    simp only [credits, dues, credit, List.map_cons, List.sum_cons] at *
    omega

/-- A run never schedules as many blocks as it may make. -/
theorem Steady.sent_lt (steady : Steady stem body done ledger) :
    ledger.sent.length < blockLimit body := by
  have credited : credits ledger (ledger.sent.drop done) ≤ dues (ledger.sent.drop done) :=
    credits_le_dues fun block member => steady.inside block (List.mem_of_mem_drop member)
  have within := steady.within
  have known : ledger.names ⊆ labels body ++ (List.range ledger.minted).map (Mint.nameAt stem) := by
    intro name member
    rcases steady.names name member with label | ⟨index, upper, same⟩
    · exact List.mem_append_left _ label
    · exact List.mem_append_right _ (List.mem_map.2 ⟨index, List.mem_range.2 upper, same.symm⟩)
  have counted := (List.subperm_of_subset steady.distinct known).length_le
  have weighed := labels_mints_body_le body
  simp only [Ledger.names, List.length_map, List.length_append, List.length_range] at counted
  unfold blockLimit
  omega

end Steady

section Run

variable {stem : String} {body : List Stmt} {done : Nat} {run final : Run} {ledger : Ledger}

/-- The block that has waited longest is the next one of the ledger. -/
theorem Tracks.takeNext {taken : Option Pending} (tracks : Tracks stem done run ledger)
    (success : takeNext run = .ok taken final) :
    (taken = none ∧ done = ledger.sent.length ∧ Tracks stem done final ledger) ∨
      ∃ block, taken = some block ∧ ledger.sent[done]? = some block ∧
        Tracks stem (done + 1) final ledger := by
  unfold Flatten.takeNext Schedule.next at success
  rw [tracks.queue] at success
  cases waiting : ledger.sent.drop done with
  | nil =>
    simp only [waiting] at success
    cases success
    have past := List.drop_eq_nil_iff.1 waiting
    exact .inl ⟨rfl, Nat.le_antisymm tracks.started past, tracks⟩
  | cons block rest =>
    simp only [waiting] at success
    cases success
    have bound : done < ledger.sent.length := by
      rw [← Nat.not_le, ← List.drop_eq_nil_iff, waiting]
      exact List.cons_ne_nil _ _
    rw [List.drop_eq_getElem_cons bound] at waiting
    cases waiting
    exact .inr ⟨_, rfl, List.getElem?_eq_getElem bound,
      { tracks with queue := rfl, started := bound }⟩

/-- A block that is made has the statements that are placed for it. -/
theorem placed_of_makeBlock {block : Pending} {made : LabeledBlock}
    (tracks : Tracks stem done run ledger) (inside : block.continuation.Inside)
    (begun : Begun stem ledger (.blockStart block.name) block.continuation)
    (success : makeBlock block run = .ok made final) :
    ∃ out between, made = ⟨block.name, out⟩ ∧
      Placed stem ledger block.continuation block.fallThrough (.blockStart block.name) out between ∧
        Tracks stem done final between := by
  obtain ⟨_, reported, event, success⟩ := RunM.bind_ok success
  obtain ⟨out, afterPlace, placing, success⟩ := RunM.bind_ok success
  obtain ⟨same, got, gets, success⟩ := RunM.bind_ok success
  cases gets
  obtain ⟨_, finished, closing, success⟩ := RunM.bind_ok success
  cases success
  obtain ⟨between, placed, tracks⟩ :=
    placeable _ inside begun (tracks.reportEvent event) placing
  exact ⟨out, between, rfl, placed, tracks.reportEvent closing⟩

/-- The next block that is made can be. -/
theorem Steady.next {block : Pending} (steady : Steady stem body done ledger)
    (waits : ledger.sent[done]? = some block) : block.continuation.Inside ∧
      Begun stem ledger (.blockStart block.name) block.continuation :=
  ⟨steady.inside block (List.mem_of_getElem? waits),
    steady.begun block (by rw [drop_of_waits waits]; exact List.mem_cons_self ..)⟩

theorem made_of_makeBlocks {limit : Nat} {blocks : List LabeledBlock}
    (tracks : Tracks stem done run ledger) (steady : Steady stem body done ledger)
    (success : makeBlocks limit run = .ok blocks final) :
    ∃ last later, Made stem done ledger blocks last later ∧ Tracks stem last final later ∧
      (last = later.sent.length ∨ blocks.length = limit) := by
  induction limit generalizing done run ledger blocks with
  | zero =>
    cases success
    exact ⟨done, ledger, .stops, tracks, .inr rfl⟩
  | succ limit ih =>
    obtain ⟨taken, middle, takes, success⟩ := RunM.bind_ok success
    rcases tracks.takeNext takes with ⟨rfl, finished, tracks⟩ | ⟨block, rfl, waits, tracks⟩
    · cases success
      exact ⟨done, ledger, .stops, tracks, .inl finished⟩
    · obtain ⟨made, afterBlock, makes, success⟩ := RunM.bind_ok success
      obtain ⟨others, lastRun, makesOthers, result⟩ := RunM.bind_ok success
      cases result
      obtain ⟨inside, begun⟩ := steady.next waits
      obtain ⟨out, between, rfl, placed, tracks⟩ := placed_of_makeBlock tracks inside begun makes
      obtain ⟨last, later, made, tracks, complete⟩ :=
        ih tracks (steady.step waits placed) makesOthers
      refine ⟨last, later, .makes waits placed made, tracks, ?_⟩
      exact complete.imp_right (congrArg (· + 1))

end Run

end Unnest.Flatten
