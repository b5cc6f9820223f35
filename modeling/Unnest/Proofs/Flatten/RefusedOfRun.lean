import Unnest.Proofs.Flatten.PlacedOfRun
import Unnest.Proofs.Flatten.Refused

/-! A run that fails follows the rules for what is refused. No block is ever scheduled under a
name that is taken, so scheduling does not fail, and what is left are the checks. The stages are
those of a run that succeeds. -/

namespace Unnest.Flatten
open Script

variable {stem fallThrough : String} {done : Nat} {run final : Run} {ledger : Ledger}
  {code rest : Continuation Stmt} {frame : Frame Stmt} {current : Stmt} {spot : Spot}
  {fault : FlattenError}

section Steps

/-- The step fails in no state. -/
def Infallible {α : Type} (step : RunM α) : Prop :=
  ∀ run fault final, step run ≠ .error fault final

theorem RunM.bind_infallible {α β : Type} {first : RunM α} {next : α → RunM β}
    (safe : Infallible first) (failure : (first >>= next) run = .error fault final) :
    ∃ value middle, first run = .ok value middle ∧ next value middle = .error fault final :=
  (bind_error failure).resolve_left (safe _ _ _)

theorem Infallible.succeeds {α : Type} {step : RunM α} (safe : Infallible step) (run : Run) :
    ∃ value later, step run = .ok value later := by
  cases ran : step run with
  | ok value later => exact ⟨value, later, rfl⟩
  | error fault later => exact absurd ran (safe _ _ _)

theorem infallible_pure {α : Type} (value : α) : Infallible (pure value) := nofun

theorem infallible_reportEvent (event : Journal.Event) : Infallible (reportEvent event) := nofun

theorem infallible_freshName : Infallible freshName := nofun

theorem Infallible.bind {α β : Type} {first : RunM α} {next : α → RunM β}
    (safe : Infallible first) (others : ∀ value, Infallible (next value)) :
    Infallible (first >>= next) := by
  intro run fault final failure
  obtain ⟨value, middle, _, fails⟩ := RunM.bind_infallible safe failure
  exact others value middle fault final fails

theorem infallible_labelAfter (following : Continuation Stmt) (fallThrough : String) :
    Infallible (labelAfter following fallThrough) := by
  unfold labelAfter
  split
  · exact infallible_pure _
  · exact infallible_freshName.bind fun _ => infallible_pure _
  · exact infallible_pure _

theorem infallible_planLoop (head : LoopHead) (body : List Stmt) (loopName : String)
    (following : Continuation Stmt) (fallThrough : String) :
    Infallible (planLoop head body loopName following fallThrough) := by
  have labels := infallible_labelAfter following fallThrough
  have reports {α : Type} (event : Journal.Event) (value : α) :
      Infallible (do reportEvent event; return value) :=
    (infallible_reportEvent event).bind fun _ => infallible_pure value
  cases head with
  | whileHead condition => exact labels.bind fun after => reports _ _
  | doHead condition =>
    apply infallible_freshName.bind
    intro conditionLabel
    cases breaks : containsBreak body with
    | true => exact labels.bind fun after => reports _ _
    | false => exact reports _ _
  | forHead init condition iterator =>
    apply Infallible.bind
    · cases iterator with
      | none => exact infallible_pure _
      | some iterator => exact infallible_freshName
    · exact fun iteratorLabel => labels.bind fun after => reports _ _

theorem infallible_get : Infallible (get : RunM Run) := nofun

/-- A block is scheduled when its name is free. -/
theorem Tracks.enqueue_free {block : Pending} (tracks : Tracks stem done run ledger)
    (free : block.name ∉ ledger.names) : Flatten.enqueue block run ≠ .error fault final := by
  have bound := tracks.isBound block.name
  rw [Ledger.isBound_eq_false_iff.2 free, Run.isBound] at bound
  unfold Flatten.enqueue Schedule.enqueue Registry.bind?
  rw [bound]
  intro failure
  cases empty : block.continuation.isEmpty with
  | false =>
    rw [empty] at failure
    cases failure
  | true =>
    rw [empty] at failure
    cases failure

/-- A promise that does not insist on its name is kept in any case. -/
theorem Tracks.keep_free {promise : Promise} (tracks : Tracks stem done run ledger)
    (free : promise.unlessBound = false → promise.block.name ∉ ledger.names) :
    Flatten.keep promise run ≠ .error fault final := by
  intro failure
  obtain ⟨same, middle, got, failure⟩ := RunM.bind_infallible infallible_get failure
  cases got
  rw [tracks.isBound] at failure
  by_cases owned : (promise.unlessBound && ledger.isBound promise.block.name) = true
  · rw [if_pos owned] at failure
    cases failure
  · rw [if_neg owned] at failure
    refine tracks.enqueue_free ?_ failure
    cases firm : promise.unlessBound with
    | false => exact free firm
    | true =>
      rw [firm, Bool.true_and, Bool.not_eq_true] at owned
      exact Ledger.isBound_eq_false_iff.1 owned

theorem names_of_keep {promise : Promise} {later : Ledger}
    (kept : ledger.keep? promise = some later) :
    ∀ name ∈ later.names, name ∈ ledger.names ∨ name = promise.block.name := by
  intro name member
  unfold Ledger.keep? at kept
  split at kept
  · cases kept
    exact .inl member
  · rw [Ledger.names_of_send kept, List.mem_append, List.mem_singleton] at member
    exact member

/-- Keeping promises binds no names but theirs. -/
theorem names_of_keepAll {promises : List Promise} {later : Ledger}
    (kept : ledger.keepAll? promises = some later) :
    ∀ name ∈ later.names, name ∈ ledger.names ∨ ∃ promise ∈ promises, name = promise.block.name := by
  induction promises generalizing ledger with
  | nil =>
    cases kept
    exact fun name member => .inl member
  | cons promise rest ih =>
    obtain ⟨between, first, others⟩ := Option.bind_eq_some_iff.1 kept
    intro name member
    rcases ih others name member with middle | ⟨other, inside, same⟩
    · exact (names_of_keep first name middle).imp_right fun same =>
        ⟨promise, List.mem_cons_self .., same⟩
    · exact .inr ⟨other, List.mem_cons_of_mem _ inside, same⟩

/-- Promises are kept when their names are different, and free where they insist on them. -/
theorem Tracks.keepAll_free {promises : List Promise} (tracks : Tracks stem done run ledger)
    (more : ∀ promise ∈ promises, promise.block.continuation.isEmpty = false)
    (free : ∀ promise ∈ promises, promise.unlessBound = false → promise.block.name ∉ ledger.names)
    (apart : promises.Pairwise fun first second => second.block.name ≠ first.block.name) :
    promises.forM Flatten.keep run ≠ .error fault final := by
  induction promises generalizing run ledger with
  | nil => nofun
  | cons promise rest ih =>
    intro failure
    obtain ⟨alone, apart⟩ := List.pairwise_cons.1 apart
    rcases RunM.bind_error failure with here | ⟨_, middle, kept, others⟩
    · exact tracks.keep_free (free promise (List.mem_cons_self ..)) here
    · obtain ⟨between, sent, tracks⟩ := tracks.keep (more promise (List.mem_cons_self ..)) kept
      refine ih tracks (fun other member => more other (List.mem_cons_of_mem _ member)) ?_ apart others
      intro other member firm bound
      rcases names_of_keep sent _ bound with before | same
      · exact free other (List.mem_cons_of_mem _ member) firm before
      · exact alone other member same

end Steps

/-- The names that are still to be made up are free. -/
def Unmade (stem : String) (ledger : Ledger) : Prop :=
  ∀ index, ledger.minted ≤ index → Mint.nameAt stem index ∉ ledger.names

section Unmade

variable {statements : List Stmt} {named between later : Ledger}

/-- Code whose labels do not look made up does not take a name that is made up elsewhere. -/
theorem Grows.free (grows : Grows stem statements ledger later)
    (unmade : ∀ label ∈ labels statements, ∀ index, label ≠ Mint.nameAt stem index) {index : Nat}
    (free : Mint.nameAt stem index ∉ ledger.names)
    (outside : index < ledger.minted ∨ later.minted ≤ index) :
    Mint.nameAt stem index ∉ later.names := by
  intro bound
  rcases grows.names _ bound with before | label | ⟨other, lower, upper, same⟩
  · exact free before
  · exact unmade _ label index rfl
  · have := nameAt_injective stem same
    omega

theorem Unmade.grown (unmade : Unmade stem ledger) (grows : Grows stem statements ledger later)
    (plain : ∀ label ∈ labels statements, ∀ index, label ≠ Mint.nameAt stem index) :
    Unmade stem later := fun index lower =>
  grows.free plain (unmade index (Nat.le_trans grows.minted lower)) (.inr lower)

/-- Names that are still to be made up stay free while no label is opened. -/
theorem Unmade.still (unmade : Unmade stem ledger) (grows : Grows stem [] ledger later) :
    Unmade stem later :=
  unmade.grown grows (by simp)

/-- A name that has been made up stays free while other code is placed. -/
theorem Unmade.free {name : String} (unmade : Unmade stem ledger)
    (made : MadeUp stem ledger named name) (sent : named.sent = ledger.sent)
    (grows : Grows stem statements named later)
    (plain : ∀ label ∈ labels statements, ∀ index, label ≠ Mint.nameAt stem index) :
    name ∉ later.names := by
  obtain ⟨index, lower, upper, rfl⟩ := made
  apply grows.free plain _ (.inl upper)
  rw [Ledger.names, sent]
  exact unmade index lower

/-- The promised blocks of a loop can be scheduled when its body has been placed. -/
theorem Promising.free {following : Continuation Stmt} {promises : List Promise}
    (promising : Promising stem ledger named following promises) (unmade : Unmade stem ledger)
    (grows : Grows stem statements named later)
    (plain : ∀ label ∈ labels statements, ∀ index, label ≠ Mint.nameAt stem index) :
    ∀ promise ∈ promises, promise.unlessBound = false → promise.block.name ∉ later.names := by
  intro promise member firm
  cases promising.promised promise member with
  | labeled => cases firm
  | madeUp made => exact unmade.free made promising.sent grows plain

/-- No two blocks are promised under one name. -/
theorem Promising.different {following : Continuation Stmt} {promises : List Promise}
    (promising : Promising stem ledger named following promises)
    (plain : ∀ label ∈ labels following.remaining, ∀ index, label ≠ Mint.nameAt stem index) :
    promises.Pairwise fun first second => second.block.name ≠ first.block.name := by
  apply (promising.apart.and promising.single).imp_of_mem
  intro first second inFront inBack ⟨apart, single⟩ same
  cases promising.promised first inFront with
  | madeUp made =>
    cases promising.promised second inBack with
    | madeUp => exact apart rfl rfl same.symm
    | labeled _ ahead =>
      obtain ⟨index, _, _, named⟩ := made
      exact plain _ (by rw [ahead]; simp) index (same.trans named)
  | labeled _ ahead =>
    cases promising.promised second inBack with
    | madeUp made =>
      obtain ⟨index, _, _, named⟩ := made
      exact plain _ (by rw [ahead]; simp) index (same.symm.trans named)
    | labeled => exact single.elim nofun nofun

/-- As long as nobody claims the label behind a loop, every name that the loop promises is free. -/
theorem Promising.unclaimed {following : Continuation Stmt} {promises : List Promise}
    (promising : Promising stem ledger named following promises)
    (free : ∀ promise ∈ promises, promise.unlessBound = false → promise.block.name ∉ later.names)
    (behind : Unseen stem later.names following.remaining) :
    ∀ promise ∈ promises, promise.block.name ∉ later.names := by
  intro promise member
  cases promising.promised promise member with
  | madeUp => exact free _ member rfl
  | labeled _ ahead => exact behind.unbound _ (by rw [ahead]; simp)

end Unmade

section Branch

variable {test : Expr} {thenBody thenFlat elseFlat : List Stmt} {elseBody : Option (List Stmt)}
  {others : List Stmt} {following : Continuation Stmt} {after : Successor} {label : String}
  {inThen inElse : Spot} {named between further : Ledger}
  (unseen : Unseen stem ledger.names (.branch test thenBody elseBody :: others))
  (chosen : Chosen stem ledger fallThrough following.remaining after named)
  (unmade : Unmade stem ledger)
  (thenPlaced : Placed stem named (.ofBlock thenBody) label inThen thenFlat between)
include unseen chosen unmade thenPlaced

/-- The bodies of a branch take none of the names that are still to be made up. -/
theorem Unseen.unmade_then : Unmade stem between := by
  apply (unmade.still (chosen.grows [])).grown thenPlaced.grows
  intro label member
  rw [Continuation.remaining_ofBlock] at member
  exact unseen.named label (by simp [member])

variable (elsePlaced : Placed stem between (.ofBlock (elseBody.getD [])) label inElse elseFlat
  further)
include elsePlaced

theorem Unseen.unmade_else : Unmade stem further := by
  apply (unseen.unmade_then chosen unmade thenPlaced).grown elsePlaced.grows
  intro label member
  rw [Continuation.remaining_ofBlock] at member
  exact unseen.named label (by simp [member])

/-- The name that is made up for the code behind a branch is free when its bodies are placed. -/
theorem Unseen.free_behind : ∀ name, after = .fresh name → name ∉ further.names := by
  rintro name rfl
  have grows : Grows stem (thenBody ++ elseBody.getD []) named further :=
    (thenPlaced.grows.mono (by simp)).trans (elsePlaced.grows.mono (by simp))
  have plain : ∀ label ∈ labels (thenBody ++ elseBody.getD []), ∀ index,
      label ≠ Mint.nameAt stem index := fun label member =>
    unseen.named label (List.mem_append_left _ (by simpa using member))
  exact chosen.promising.free unmade grows plain _ (List.mem_singleton_self _) rfl

end Branch

theorem leaf_unlabeled {statement : Stmt} (own : statement.ownLabel = none)
    (leaf : statement.children = []) : statement.containsLabels = false := by
  rw [Stmt.containsLabels_eq, own, leaf]
  rfl

/-- Moving a loop to a block of its own does not fail. -/
theorem splits_free {loop : Frame Stmt} {init : List Stmt} (unmade : Unmade stem ledger)
    (tracks : Tracks stem done run ledger) :
    (do
      let jump ← splitBeforeLoop loop rest fallThrough
      return init ++ jump : RunM (List Stmt)) run ≠ .error fault final := by
  intro failure
  rcases RunM.bind_error failure with failure | ⟨_, _, _, result⟩
  · obtain ⟨loopTop, middle, minted, failure⟩ := RunM.bind_infallible infallible_freshName failure
    obtain ⟨rfl, tracks⟩ := tracks.freshName minted
    obtain ⟨_, reported, event, failure⟩ :=
      RunM.bind_infallible (infallible_reportEvent _) failure
    have grows : Grows stem [] ledger.mint ledger.mint := .refl
    have free := unmade.free madeUp_mint rfl grows (by simp)
    rcases RunM.bind_error failure with failure | ⟨_, _, _, result⟩
    · exact (tracks.move event).enqueue_free free failure
    · cases result
  · cases result

/-- A run that fails to put the code into a block follows the rules for what is refused. -/
def Refusable (stem : String) (code : Continuation Stmt) : Prop :=
  ∀ ⦃done : Nat⦄ ⦃ledger : Ledger⦄ ⦃run final : Run⦄ ⦃fallThrough : String⦄ ⦃spot : Spot⦄
    ⦃fault : FlattenError⦄, code.Inside → Begun stem ledger spot code → Unmade stem ledger →
      Tracks stem done run ledger → place code fallThrough spot run = .error fault final →
        ∃ later, Refused stem ledger code fallThrough spot fault later ∧
          Tracks stem done final later

theorem refused_of_placeElse {elseBody : Option (List Stmt)} {label : String}
    (inElse : ∀ body, elseBody = some body → Refusable stem (.ofBlock body))
    (begun : Begun stem ledger .inside (.ofBlock (elseBody.getD []))) (unmade : Unmade stem ledger)
    (tracks : Tracks stem done run ledger)
    (failure : placeElse place elseBody label run = .error fault final) :
    ∃ body later, elseBody = some body ∧
      Refused stem ledger (.ofBlock body) label .inside fault later ∧
        Tracks stem done final later := by
  cases elseBody with
  | none => cases failure
  | some elseBody =>
    rcases RunM.bind_error failure with failure | ⟨_, _, _, result⟩
    · obtain ⟨later, refused, tracks⟩ :=
        inElse elseBody rfl (Continuation.inside_ofBlock _) begun unmade tracks failure
      exact ⟨elseBody, later, rfl, refused, tracks⟩
    · cases result

/-- Behind a branch whose label can be claimed, only the code itself is refused. -/
theorem Refusable.refused_behind {following : Continuation Stmt} {after : Successor}
    {placed : List Stmt} (behind : Refusable stem following)
    (free : ∀ name, after = .fresh name → name ∉ ledger.names) (inside : following.Inside)
    (begun : Begun stem ledger (.after placed) following) (unmade : Unmade stem ledger)
    (tracks : Tracks stem done run ledger)
    (failure : placeBehind place after placed following fallThrough run = .error fault final) :
    ∃ later, Refused stem ledger following fallThrough (.after placed) fault later ∧
      Tracks stem done final later := by
  cases after with
  | fresh name =>
    rcases RunM.bind_error failure with failure | ⟨_, _, _, result⟩
    · exact absurd failure (tracks.enqueue_free (free name rfl))
    · cases result
  | next | fallThrough =>
    rcases RunM.bind_error failure with failure | ⟨_, _, _, result⟩
    · exact behind inside begun unmade tracks failure
    · cases result

namespace Running

theorem refused_branch {test : Expr} {thenBody : List Stmt} {elseBody : Option (List Stmt)}
    (running : Running stem ledger spot code frame rest current
      (.branch test thenBody elseBody))
    (labeled : (Stmt.branch test thenBody elseBody).containsLabels = true)
    (inThen : Refusable stem (.ofBlock thenBody))
    (inElse : ∀ body, elseBody = some body → Refusable stem (.ofBlock body))
    (behind : Refusable stem (rest.pushFollowing frame)) (unmade : Unmade stem ledger)
    (tracks : Tracks stem done run ledger)
    (failure : placeBranch place test thenBody elseBody (rest.pushFollowing frame) fallThrough run =
      .error fault final) :
    ∃ later, Refused stem ledger code fallThrough spot fault later ∧
      Tracks stem done final later := by
  have ⟨_, met, _, arrival, unseen⟩ := running
  obtain ⟨after, middle, chosen, failure⟩ :=
    RunM.bind_infallible (infallible_labelAfter _ _) failure
  obtain ⟨named, chosen, tracks⟩ := tracks.labelAfter running.inside_following chosen
  have choice := chosen_of_successor chosen
  obtain ⟨_, reported, event, failure⟩ := RunM.bind_infallible (infallible_reportEvent _) failure
  have tracks := tracks.reportEvent event
  rcases RunM.bind_error failure with failure | ⟨thenFlat, afterThen, placesThen, failure⟩
  · obtain ⟨later, refused, tracks⟩ := inThen (Continuation.inside_ofBlock _)
      (unseen.begun_then choice) (unmade.still (choice.grows [])) tracks failure
    exact ⟨later, .inThen met arrival labeled chosen refused, tracks⟩
  obtain ⟨between, thenPlaced, tracks⟩ :=
    placeable _ (Continuation.inside_ofBlock _) (unseen.begun_then choice) tracks placesThen
  have unmadeBetween := unseen.unmade_then choice unmade thenPlaced
  have begunElse : Begun stem between .inside (.ofBlock (elseBody.getD [])) :=
    unseen.begun_else choice thenPlaced
  rcases RunM.bind_error failure with failure | ⟨elseOut, afterElse, placesElse, failure⟩
  · obtain ⟨body, later, rfl, refused, tracks⟩ :=
      refused_of_placeElse inElse begunElse unmadeBetween tracks failure
    exact ⟨later, .inElse met arrival labeled chosen thenPlaced refused, tracks⟩
  obtain ⟨elseFlat, further, rfl, elsePlaced, tracks⟩ :=
    placed_of_placeElse (fun _ _ => placeable _) begunElse tracks placesElse
  have unmadeFurther := unseen.unmade_else choice unmade thenPlaced elsePlaced
  have free := unseen.free_behind choice unmade thenPlaced elsePlaced
  have unseen := unseen.behind_else choice thenPlaced elsePlaced
  obtain ⟨later, refused, tracks⟩ := behind.refused_behind free running.inside_following
    (unseen.begun running.whole_following) unmadeFurther tracks failure
  exact ⟨later, .behind met arrival labeled chosen thenPlaced elsePlaced refused, tracks⟩

section Loop

variable {loop : Stmt} {head : LoopHead} {body : List Stmt}
  (running : Running stem ledger spot code frame rest current loop)
  (labeled : loop.containsLabels = true) (isLoop : loopOf loop = some (head, body))
  (inBody : ∀ targets inner, redirect targets body = .ok inner → Refusable stem (.ofBlock inner))
  (unmade : Unmade stem ledger) (tracks : Tracks stem done run ledger)
include running labeled isLoop inBody unmade tracks

theorem refused_inlineLoop {loopName : String}
    (failure : inlineLoop place head body loopName (rest.pushFollowing frame) fallThrough run =
      .error fault final) :
    ∃ later, Refused stem ledger code fallThrough spot fault later ∧
      Tracks stem done final later := by
  have ⟨_, met, _, arrival, unseen⟩ := running
  obtain ⟨plan, middle, plans, failure⟩ :=
    RunM.bind_infallible (infallible_planLoop _ _ _ _ _) failure
  obtain ⟨named, planned, tracks⟩ := tracks.planLoop running.inside_following plans
  have promising := layout_promising planned
  cases redirects : redirect plan.targets body with
  | error fault =>
    simp only [redirects] at failure
    cases failure
    exact ⟨_, .jump met arrival labeled isLoop planned redirects, tracks⟩
  | ok inner =>
    simp only [redirects] at failure
    have starts : Grows stem [] ledger (named.inline loopName) :=
      .ofMinted promising.sent promising.minted
    have begunInner : Begun stem (named.inline loopName) .inside (.ofBlock inner) :=
      unseen.begun_body isLoop redirects promising
    rcases RunM.bind_error failure with failure | ⟨flat, middle, success, failure⟩
    · obtain ⟨later, refused, tracks⟩ := inBody _ _ redirects (Continuation.inside_ofBlock _)
        begunInner (unmade.still starts) tracks failure
      exact ⟨later, .inBody met arrival labeled isLoop planned redirects refused, tracks⟩
    · obtain ⟨between, placed, tracks⟩ :=
        placeable _ (Continuation.inside_ofBlock _) begunInner tracks success
      have same : Grows stem (Continuation.ofBlock inner).remaining named
          (named.inline loopName) := .ofMinted rfl (Nat.le_refl _)
      have free := promising.free unmade (same.trans placed.grows)
        fun label member => begunInner.fresh.named label member
      have different := promising.different fun label member =>
        unseen.named label (List.mem_append_right _ member)
      have more (promise : Promise) (member : promise ∈ plan.promises) :=
        (promising.ready running.inside_following promise member).more
      rcases RunM.bind_error failure with failure | ⟨_, _, _, result⟩
      · exact absurd failure (tracks.keepAll_free more free different)
      · cases result

theorem refused_loop
    (failure : placeLoop place head body frame rest fallThrough spot run = .error fault final) :
    ∃ later, Refused stem ledger code fallThrough spot fault later ∧
      Tracks stem done final later := by
  cases init : head.labeledInit with
  | some kind =>
    rw [placeLoop_of_labeledInit init] at failure
    cases failure
    exact ⟨ledger, .init running.met running.arrival labeled isLoop init, tracks⟩
  | none =>
    rcases ready_or_unready head frame spot with ⟨loopName, start, ready⟩ | unready
    · rw [placeLoop_of_ready init start ready] at failure
      exact running.refused_inlineLoop labeled isLoop inBody unmade tracks failure
    · rw [placeLoop_of_unready init unready] at failure
      exact absurd failure (splits_free unmade tracks)

end Loop

section Statement

variable {statement : Stmt}
  (running : Running stem ledger spot code frame rest current statement)
  (lighter : ∀ other : Continuation Stmt, other.weight < code.weight → Refusable stem other)
  (unmade : Unmade stem ledger) (tracks : Tracks stem done run ledger)
include running lighter unmade tracks

theorem refused_labeled (labeled : statement.containsLabels = true)
    (failure : placeLabeled place statement frame rest fallThrough spot run = .error fault final) :
    ∃ later, Refused stem ledger code fallThrough spot fault later ∧
      Tracks stem done final later := by
  have ⟨_, met, _, arrival, _⟩ := running
  cases statement with
  | block body =>
    obtain ⟨later, refused, tracks⟩ := lighter _ running.weight_splice_lt
      (Continuation.inside_push running.inside_following _) running.begun_splice unmade tracks failure
    exact ⟨later, .splices met arrival refused, tracks⟩
  | branch test thenBody elseBody =>
    have inThen := lighter (.ofBlock thenBody) (weight_ofBlock_lt met arrival weight_then_le)
    have inElse : ∀ body, elseBody = some body → Refusable stem (.ofBlock body) := by
      rintro body rfl
      exact lighter (.ofBlock body) (weight_ofBlock_lt met arrival weight_else_le)
    exact running.refused_branch labeled inThen inElse (lighter _ (weight_following_lt met)) unmade
      tracks failure
  | switch discriminant cases =>
    cases failure
    exact ⟨ledger, .switch met arrival labeled, tracks⟩
  | whileLoop | doLoop | forLoop =>
    exact running.refused_loop labeled rfl
      (fun _ inner redirects => lighter _ (running.weight_inner_lt rfl redirects)) unmade tracks
      failure
  | labeled label body => exact absurd (runs_inv arrival).1 (Option.some_ne_none _)
  | _ =>
    rw [leaf_unlabeled rfl rfl] at labeled
    cases labeled

theorem refused_statement
    (failure : placeStatement place statement frame rest fallThrough spot run =
      .error fault final) :
    ∃ later, Refused stem ledger code fallThrough spot fault later ∧
      Tracks stem done final later := by
  unfold placeStatement at failure
  cases labeled : statement.containsLabels with
  | true =>
    simp only [labeled, if_true] at failure
    exact running.refused_labeled lighter unmade tracks labeled failure
  | false =>
    simp only [labeled, Bool.false_eq_true, if_false] at failure
    cases jumps : statement.namedJump with
    | some jump =>
      simp only [jumps] at failure
      cases failure
      exact ⟨ledger, .named running.met running.arrival labeled jumps, tracks⟩
    | none =>
      simp only [jumps] at failure
      rcases RunM.bind_error failure with failure | ⟨_, _, _, result⟩
      · obtain ⟨later, refused, tracks⟩ := lighter _ (weight_following_lt running.met)
          running.inside_following running.begun_following unmade tracks failure
        exact ⟨later, .copies running.met running.arrival labeled refused, tracks⟩
      · cases result

end Statement

end Running

theorem refusable (code : Continuation Stmt) : Refusable stem code := by
  intro done ledger run final fallThrough spot fault inside begun unmade tracks failure
  have lighter (other : Continuation Stmt) (less : other.weight < code.weight) :
      Refusable stem other := refusable other
  rcases inside.cases with nothing | ⟨frame, rest, current, met⟩
  · rw [place_of_pop_none nothing] at failure
    cases failure
  rw [place_of_at met] at failure
  obtain ⟨same, middle, got, failure⟩ := RunM.bind_infallible infallible_get failure
  cases got
  cases arrival : arrive run.isBound current with
  | opens label =>
    simp only [arrival] at failure
    rw [funext tracks.isBound] at arrival
    obtain ⟨_, reported, event, failure⟩ := RunM.bind_infallible (infallible_reportEvent _) failure
    rcases RunM.bind_error failure with failure | ⟨_, _, _, result⟩
    · have free := Ledger.isBound_eq_false_iff.1 (opens_inv arrival).1
      exact absurd failure ((tracks.reportEvent event).enqueue_free free)
    · cases result
  | unwraps inner =>
    simp only [arrival] at failure
    rw [funext tracks.isBound] at arrival
    obtain ⟨later, refused, tracks⟩ := lighter _ (weight_push_unwraps_lt met arrival)
      (Continuation.inside_push (met.inside_following inside) _) (begun.unwrapped met arrival) unmade
      tracks failure
    exact ⟨later, .unwraps met arrival refused, tracks⟩
  | runs statement =>
    simp only [arrival] at failure
    rw [funext tracks.isBound] at arrival
    have running := begun.running inside met arrival
    exact running.refused_statement lighter unmade tracks failure
termination_by code.weight
decreasing_by exact less

end Unnest.Flatten
