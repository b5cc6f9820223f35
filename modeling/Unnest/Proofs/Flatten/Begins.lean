import Unnest.Proofs.Flatten.HandsOn
import Unnest.Proofs.Flatten.PlacedOfRun

/-! How a scheduled block begins. A block whose code starts with a label has that label as its
name, and a block that resumes a loop behind its initializer was made for that loop. -/

namespace Unnest.Flatten
open Script

/-- The block begins with its own label, or with a loop that has been moved to it. -/
structure Pending.Begins (isBound : String → Bool) (block : Pending) : Prop where
  behind : ∀ {frame rest current}, block.continuation.At frame rest current → rest.Whole
  own : ∀ {frame rest current}, block.continuation.At frame rest current →
    frame.afterInit = false → ∀ label, current.ownLabel = some label → block.name = label
  resumed : ∀ {frame rest current}, block.continuation.At frame rest current →
    frame.afterInit = true → ∃ loop, Passed isBound current loop ∧
      loop.ownLabel = none ∧ loop.containsLabels = true

section Begins

variable {stem : String} {ledger later : Ledger} {block : Pending}

theorem Pending.Plain.begins (plain : block.Plain) (isBound : String → Bool) :
    block.Begins isBound where
  behind met other member := plain.whole other (met.frames ▸ List.mem_cons_of_mem _ member)
  own met _ label declared := plain.own _ _ met.remaining label declared
  resumed met resumes := by
    have started := plain.whole _ (met.frames ▸ List.mem_cons_self ..)
    rw [resumes] at started
    cases started

/-- A block that begins like this can be made. -/
theorem Pending.Begins.begun (begins : block.Begins ledger.isBound)
    (fresh : Fresh stem ledger.names block.continuation.remaining) :
    Begun stem ledger (.blockStart block.name) block.continuation where
  fresh := fresh
  owned met := ⟨begins.behind met,
    fun plain label declared _ => congrArg some (begins.own met plain label declared),
    begins.resumed met⟩

theorem Passed.mono {isBound isBound' : String → Bool} {current inner : Stmt}
    (more : ∀ name, isBound name = true → isBound' name = true)
    (passed : Passed isBound current inner) : Passed isBound' current inner := by
  cases passed with
  | plain own => exact .plain own
  | below bound => exact .below (more _ bound)

theorem Pending.Begins.mono {isBound isBound' : String → Bool}
    (more : ∀ name, isBound name = true → isBound' name = true) (begins : block.Begins isBound) :
    block.Begins isBound' where
  behind := begins.behind
  own := begins.own
  resumed met resumes := by
    obtain ⟨loop, passed, unlabeled⟩ := begins.resumed met resumes
    exact ⟨loop, passed.mono more, unlabeled⟩

theorem isBound_mono (within : ledger.names ⊆ later.names) :
    ∀ name, ledger.isBound name = true → later.isBound name = true := by
  intro name bound
  rw [Ledger.isBound_iff] at bound ⊢
  exact within bound

/-- Placing other code leaves a block as it begins. -/
theorem Begun.grown {name : String} {code : Continuation Stmt} {others : List Stmt}
    (begun : Begun stem ledger (.blockStart name) code) (grows : Grows stem others ledger later)
    (apart : ∀ label ∈ labels code.remaining, label ∉ labels others) :
    Begun stem later (.blockStart name) code where
  fresh := begun.fresh.grown grows apart
  owned {frame rest current} met := by
    obtain ⟨behind, start, resumed⟩ := begun.owned met
    refine ⟨behind, fun plain label declared bound => ?_, fun resumes => ?_⟩
    · have inCode : label ∈ labels code.remaining := by
        obtain ⟨body, rfl⟩ := ownLabel_eq_some_iff.1 declared
        rw [met.remaining]
        simp
      rcases grows.names label (Ledger.isBound_iff.1 bound) with before | inOthers | made
      · exact start plain label declared (Ledger.isBound_iff.2 before)
      · exact absurd inOthers (apart label inCode)
      · obtain ⟨index, _, _, same⟩ := made
        exact absurd same (begun.fresh.named label inCode index)
    · obtain ⟨loop, passed, unlabeled⟩ := resumed resumes
      exact ⟨loop, passed.mono (isBound_mono grows.names_subset), unlabeled⟩

section Owned

variable {code rest : Continuation Stmt} {frame : Frame Stmt} {current loop : Stmt} {spot : Spot}
  {name fallThrough : String} {head : LoopHead} {body : List Stmt}

/-- A block that is scheduled at a label starts with the label. -/
theorem Owned.begins_opened (owned : Owned ledger spot frame rest current)
    (met : code.At frame rest current) (arrival : arrive ledger.isBound current = .opens name)
    (isBound : String → Bool) : Pending.Begins isBound ⟨code, name, fallThrough⟩ := by
  obtain ⟨_, inner, rfl⟩ := opens_inv arrival
  refine ⟨fun also => ?_, fun also _ other declared => ?_, fun also resumes => ?_⟩
  · obtain ⟨_, rfl, _⟩ := met.unique also
    exact owned.behind
  · obtain ⟨_, _, rfl⟩ := met.unique also
    exact Option.some.inj declared
  · obtain ⟨rfl, _, _⟩ := met.unique also
    rw [owned.plain_of_opens arrival] at resumes
    cases resumes

/-- A block that a loop is moved to starts with the loop, and with no label of its own. -/
theorem Owned.begins_moved {isBound : String → Bool}
    (owned : Owned ledger spot frame rest current) (met : code.At frame rest current)
    (arrival : arrive ledger.isBound current = .runs loop) (labeled : loop.containsLabels = true)
    (unready : spot.reentry = none ∨ head.pendingInit frame.afterInit ≠ [])
    (more : ∀ name, ledger.isBound name = true → isBound name = true) :
    Pending.Begins isBound ⟨rest.push (head.resumption frame), name, fallThrough⟩ := by
  have again := At.resumption met head
  obtain ⟨unlabeled, passed⟩ := runs_inv arrival
  refine ⟨fun also => ?_, fun also plain label declared => ?_, fun also resumes => ?_⟩
  · obtain ⟨_, rfl, _⟩ := again.unique also
    exact owned.behind
  · obtain ⟨rfl, _, rfl⟩ := again.unique also
    cases passed with
    | plain own =>
      rw [own] at declared
      cases declared
    | @below other inner bound =>
      -- a loop behind its own label is at the start of its block: only an initializer moves it
      have started (same : frame.afterInit = false) : spot.reentry = some other :=
        owned.start same other rfl bound
      cases head with
      | forHead => cases plain
      | whileHead | doHead =>
        rcases unready with elsewhere | waits
        · rw [started plain] at elsewhere
          cases elsewhere
        · exact absurd rfl waits
  · obtain ⟨_, _, rfl⟩ := again.unique also
    exact ⟨loop, passed.mono more, unlabeled, labeled⟩

end Owned

/-- Each block that is scheduled while code is placed begins like this. -/
theorem Placed.begins {fallThrough : String} {code : Continuation Stmt} {spot : Spot}
    {out : List Stmt} (placed : Placed stem ledger code fallThrough spot out later) :
    Sends (Pending.Begins later.isBound) ledger later := by
  induction placed with
  | ends nothing => exact Sends.none rfl
  | opens met owned arrival sent => exact .ofSend sent (owned.begins_opened met arrival _)
  | unwraps met owned arrival placed ih => exact ih
  | copies met owned arrival free plain placed ih => exact ih
  | splices met owned arrival labeled placed ih => exact ih
  | branches met owned arrival labeled chosen thenPlaced elsePlaced settles placed ihThen ihElse
      ih =>
    have chosen := chosen_of_successor chosen
    have atLater := isBound_mono placed.grows.names_subset
    have atSettled := isBound_mono (settle_inv settles).1
    have atFurther := isBound_mono elsePlaced.grows.names_subset
    have inThen := ihThen.imp fun _ begins => ((begins.mono atFurther).mono atSettled).mono atLater
    have inElse := ihElse.imp fun _ begins => (begins.mono atSettled).mono atLater
    apply ((inThen.trans inElse).trans (.trans (.settle settles _) ih)).since chosen.sent
    rintro name rfl
    have plain := chosen.promising.plain
      (Continuation.whole_pushFollowing owned.behind _) _ (List.mem_singleton_self _)
    exact plain.begins _
  | @inlines ledger named between later code rest frame current loop head body inner flat loopName
      fallThrough spot plan met owned arrival labeled isLoop plainInit start ready planned redirects
      placed kept ih =>
    have promising := layout_promising planned
    have atLater : ∀ name, between.isBound name = true → later.isBound name = true :=
      isBound_mono (by
        rw [Ledger.names_of_sendAll kept]
        exact List.subset_append_left _ _)
    have inBody := ih.imp fun _ begins => begins.mono atLater
    apply (inBody.trans (.ofSendAll kept _)).since promising.sent
    rw [List.forall_mem_map]
    intro promise inPlan
    have plain := promising.plain (Continuation.whole_pushFollowing owned.behind frame) promise inPlan
    exact plain.begins _
  | @splits ledger later _ _ _ _ _ _ _ _ _ met owned arrival labeled isLoop plainInit unready sent =>
    have atLater : ∀ name, ledger.isBound name = true → later.isBound name = true :=
      isBound_mono (by
        rw [Ledger.names_of_send sent]
        exact List.subset_append_left _ _)
    exact (Sends.ofSend sent (owned.begins_moved met arrival labeled unready atLater)).since rfl

end Begins

end Unnest.Flatten
