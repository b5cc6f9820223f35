import Unnest.Proofs.Flatten.Unseen

/-! Where the labels of code go. Each is bound by the time the code is placed, or it is still
to come in exactly one of the blocks that have been scheduled on the way. -/

namespace Unnest.Flatten
open Script

namespace Pending

/-- The labels that the block has still to come to. -/
def labels (block : Pending) : List String := Script.labels block.continuation.remaining

/-- The name is made up, or it is the label that the code starts with. -/
def Named (stem : String) (block : Pending) : Prop :=
  (∃ index, block.name = Mint.nameAt stem index) ∨
    ∃ body rest, block.continuation.remaining = .labeled block.name body :: rest

end Pending

/-- The declared labels are spent, or handed on to the blocks that are scheduled in between. -/
structure HandsOn (stem : String) (declared : List String) (ledger later : Ledger)
    (more : List Pending) (spent : List String) : Prop where
  sent : later.sent = ledger.sent ++ more
  conserved : declared.Perm (spent ++ more.flatMap Pending.labels)
  bound : spent ⊆ later.names
  named : ∀ block ∈ more, block.Named stem

/-- What remains of the declared labels after placing. -/
def Hands (stem : String) (declared : List String) (ledger later : Ledger) : Prop :=
  ∃ more spent, HandsOn stem declared ledger later more spent

section Hands

variable {stem : String} {declared others : List String} {ledger between later : Ledger}

theorem names_of_sent {more : List Pending} (sent : later.sent = ledger.sent ++ more) :
    later.names = ledger.names ++ more.map Pending.name := by
  rw [Ledger.names, Ledger.names, sent, List.map_append]

theorem Hands.perm (hands : Hands stem declared ledger later) (same : declared.Perm others) :
    Hands stem others ledger later := by
  obtain ⟨more, spent, sent, conserved, bound, named⟩ := hands
  exact ⟨more, spent, sent, same.symm.trans conserved, bound, named⟩

theorem Hands.none : Hands stem [] ledger ledger :=
  ⟨[], [], (List.append_nil _).symm, .nil, nofun, nofun⟩

theorem Hands.minted (hands : Hands stem declared between later)
    (same : between.sent = ledger.sent) : Hands stem declared ledger later := by
  obtain ⟨more, spent, sent, conserved, bound, named⟩ := hands
  exact ⟨more, spent, by rw [sent, same], conserved, bound, named⟩

theorem Hands.trans (first : Hands stem declared ledger between)
    (second : Hands stem others between later) :
    Hands stem (declared ++ others) ledger later := by
  obtain ⟨front, spentFront, sentFront, conservedFront, boundFront, namedFront⟩ := first
  obtain ⟨back, spentBack, sentBack, conservedBack, boundBack, namedBack⟩ := second
  refine ⟨front ++ back, spentFront ++ spentBack, ?_, ?_, ?_, ?_⟩
  · rw [sentBack, sentFront, List.append_assoc]
  · rw [List.flatMap_append]
    apply (conservedFront.append conservedBack).trans
    rw [List.append_assoc, List.append_assoc]
    apply List.Perm.append_left
    rw [← List.append_assoc, ← List.append_assoc]
    exact List.perm_append_comm.append_right _
  · apply List.append_subset.2 ⟨?_, boundBack⟩
    rw [names_of_sent sentBack]
    exact List.Subset.trans boundFront (List.subset_append_left _ _)
  · intro block member
    rcases List.mem_append.1 member with inFront | inBack
    · exact namedFront block inFront
    · exact namedBack block inBack

/-- A label that is bound is spent. -/
theorem Hands.spend {label : String} (hands : Hands stem declared ledger later)
    (bound : label ∈ ledger.names) : Hands stem (label :: declared) ledger later := by
  obtain ⟨more, spent, sent, conserved, within, named⟩ := hands
  refine ⟨more, label :: spent, sent, conserved.cons _, ?_, named⟩
  rw [names_of_sent sent] at within ⊢
  exact List.cons_subset.2 ⟨List.mem_append_left _ bound, within⟩

theorem Hands.ofSendAll {blocks : List Pending} (sent : ledger.sendAll? blocks = some later)
    (named : ∀ block ∈ blocks, block.Named stem) :
    Hands stem (blocks.flatMap Pending.labels) ledger later :=
  ⟨blocks, [], by rw [Ledger.sendAll_inv sent], .refl _, nofun, named⟩

theorem Hands.ofSend {block : Pending} (sent : ledger.send? block = some later)
    (named : block.Named stem) : Hands stem block.labels ledger later := by
  refine ⟨[block], [], by rw [(Ledger.send_inv sent).2], by simp, nofun, ?_⟩
  intro other member
  exact List.mem_singleton.1 member ▸ named

/-- Behind its first label, the code hands on what is left of it. -/
theorem Hands.passed {code rest : Continuation Stmt} {frame : Frame Stmt} {current inner : Stmt}
    (hands : Hands stem (labels (inner :: (rest.pushFollowing frame).remaining)) ledger later)
    (met : code.At frame rest current) (passed : Passed ledger.isBound current inner) :
    Hands stem (labels code.remaining) ledger later := by
  rw [met.remaining]
  cases passed with
  | plain own => exact hands
  | below bound =>
    rw [labels_cons, Stmt.labels_labeled]
    exact hands.spend (Ledger.isBound_iff.1 bound)

/-- A loop whose initializer declares no label has the labels of its body. -/
theorem labels_loop_eq {loop : Stmt} {head : LoopHead} {body : List Stmt}
    (isLoop : loopOf loop = some (head, body)) (plainInit : head.labeledInit = none) :
    loop.labels = labels body := by
  rw [Stmt.labels_children]
  cases loop <;> simp only [loopOf, reduceCtorEq, Option.some.injEq, Prod.mk.injEq] at isLoop <;>
    obtain ⟨rfl, rfl⟩ := isLoop
  · rfl
  · rfl
  · next init condition iterator body =>
    have free : init.containsLabels = false := by
      cases labeled : init.containsLabels with
      | false => rfl
      | true => simp [LoopHead.labeledInit, labeled] at plainInit
    rw [Stmt.children, labels_cons, Stmt.labels_eq_nil_iff.2 free]
    rfl

/-- Nothing of the initializer is left where a loop is resumed. -/
theorem LoopHead.pendingInit_resumption (head : LoopHead) (frame : Frame Stmt) :
    head.pendingInit (head.resumption frame).afterInit = [] := by
  cases head with
  | whileHead | doHead => rfl
  | forHead init condition iterator => cases init <;> rfl

theorem pushFollowing_resumption (rest : Continuation Stmt) (head : LoopHead)
    (frame : Frame Stmt) :
    rest.pushFollowing (head.resumption frame) = rest.pushFollowing frame := by
  cases head <;> rfl

theorem At.resumption {code rest : Continuation Stmt} {frame : Frame Stmt} {current : Stmt}
    (met : code.At frame rest current) (head : LoopHead) :
    (rest.push (head.resumption frame)).At (head.resumption frame) rest current := by
  obtain ⟨bound, _⟩ := List.getElem?_eq_some_iff.1 met.here
  have within : (head.resumption frame).index < (head.resumption frame).block.length := by
    cases head <;> exact bound
  constructor
  · rw [Continuation.push, if_pos within]
    rfl
  · rw [← met.here]
    cases head <;> rfl

theorem At.remaining_resumption {code rest : Continuation Stmt} {frame : Frame Stmt}
    {current : Stmt} (met : code.At frame rest current) (head : LoopHead) :
    (rest.push (head.resumption frame)).remaining = code.remaining := by
  have same : (head.resumption frame).remaining = frame.remaining := by cases head <;> rfl
  rw [Continuation.remaining_push, same, ← Continuation.remaining_push, met.push_back]

/-- The code that follows a branch is scheduled or placed on the spot. -/
theorem Hands.settle {following : Continuation Stmt} {fallThrough : String} {after : Successor}
    {known named settled : Ledger}
    (chosen : Chosen stem known fallThrough following.remaining after named)
    (settles : ledger.settle? after following fallThrough = some settled)
    (hands : Hands stem (labels (after.leftover following).remaining) settled later) :
    Hands stem (labels following.remaining) ledger later := by
  cases after with
  | next | fallThrough =>
    cases settles
    exact hands
  | fresh name =>
    have named : Pending.Named stem ⟨following, name, fallThrough⟩ := by
      left
      generalize following.remaining = remains at chosen
      cases chosen
      exact ⟨_, rfl⟩
    have both := (Hands.ofSend settles named).trans hands
    rwa [Successor.leftover, Continuation.remaining_empty, labels_nil, List.append_nil] at both

theorem layout_labels {head : LoopHead} {body : List Stmt} {loopName fallThrough : String}
    {plan : LoopPlan} {following : Continuation Stmt} {named : Ledger}
    (planned : layout stem head body loopName following fallThrough ledger = (plan, named)) :
    (plan.promises.flatMap fun promise =>
      promise.block.continuation.remaining.flatMap Stmt.labels) = labels following.remaining :=
  layout_conserves Stmt.labels Stmt.labels_goto Stmt.labels_expression
    (fun _ => by simp [loopCheck, Stmt.ifThen]) planned

/-- Placing code hands on its labels. -/
theorem Placed.hands {fallThrough : String} {code : Continuation Stmt} {spot : Spot}
    {out : List Stmt} (placed : Placed stem ledger code fallThrough spot out later) :
    Hands stem (labels code.remaining) ledger later := by
  induction placed with
  | ends nothing =>
    rw [Continuation.remaining_of_pop_none nothing]
    exact .none
  | opens met owned arrival sent =>
    obtain ⟨_, inner, rfl⟩ := opens_inv arrival
    exact .ofSend sent (.inr ⟨_, _, met.remaining⟩)
  | unwraps met owned arrival placed ih =>
    apply Hands.passed _ met (passed_of_unwraps arrival)
    simpa [Frame.remaining] using ih
  | copies met owned arrival free plain placed ih =>
    apply Hands.passed _ met (runs_inv arrival).2
    rwa [labels_cons, Stmt.labels_eq_nil_iff.2 free]
  | splices met owned arrival labeled placed ih =>
    apply Hands.passed _ met (runs_inv arrival).2
    simpa [Frame.remaining] using ih
  | branches met owned arrival labeled chosen thenPlaced elsePlaced settles placed ihThen ihElse ih =>
    apply Hands.passed _ met (runs_inv arrival).2
    have chosen := chosen_of_successor chosen
    have rest := Hands.settle chosen settles ih
    have whole := (ihThen.trans (ihElse.trans rest)).minted chosen.sent
    simpa using whole
  | @inlines ledger named between later code rest frame current loop head body inner _ _ _ _ _ met owned
      arrival labeled isLoop plainInit start ready planned redirects placed kept ih =>
    apply Hands.passed _ met (runs_inv arrival).2
    have promising := layout_promising planned
    have promised : Hands stem (labels (rest.pushFollowing frame).remaining) between later := by
      have hands : Hands stem _ between later := .ofSendAll kept (fun block member => ?_)
      · rw [List.flatMap_map] at hands
        exact hands.perm (.of_eq (layout_labels planned))
      · obtain ⟨promise, inside, rfl⟩ := List.mem_map.1 member
        cases promising.promised promise inside with
        | madeUp made =>
          obtain ⟨index, _, _, same⟩ := made
          exact .inl ⟨index, same⟩
        | labeled same ahead => exact .inr ⟨_, _, same.trans ahead⟩
    have whole := (ih.trans promised).minted promising.sent
    rwa [Continuation.remaining_ofBlock, redirect_labels redirects,
      ← labels_loop_eq isLoop plainInit] at whole
  | splits met owned arrival labeled isLoop plainInit unready sent =>
    have hands : Hands stem _ _ _ := .ofSend sent (.inl ⟨_, rfl⟩)
    rw [Pending.labels, At.remaining_resumption met] at hands
    exact hands.minted rfl

theorem labels_of_promised {promises : List Promise} {promise : Promise} {following : List Stmt}
    (conserved : (promises.flatMap fun promise =>
      promise.block.continuation.remaining.flatMap Stmt.labels) = labels following)
    (member : promise ∈ promises) : List.Sublist promise.block.labels (labels following) := by
  rw [← conserved, List.flatMap_def]
  exact List.sublist_flatten_of_mem (List.mem_map.2 ⟨promise, member, rfl⟩)

/-- A label that is taken stays at the head of its code. -/
theorem Placed.fresh {taken : List String} {fallThrough : String} {code : Continuation Stmt}
    {spot : Spot} {out : List Stmt}
    (placed : Placed stem ledger code fallThrough spot out later)
    (fresh : Fresh stem taken code.remaining) :
    Sends (fun block => Fresh stem taken block.continuation.remaining) ledger later := by
  induction placed with
  | ends nothing => exact Sends.none rfl
  | opens met owned arrival sent => exact Sends.ofSend sent fresh
  | unwraps met owned arrival placed ih =>
    have unseen := fresh.passed met (passed_of_unwraps arrival)
    exact ih unseen.single.fresh
  | copies met owned arrival free plain placed ih =>
    have unseen := fresh.passed met (runs_inv arrival).2
    exact ih (unseen.sublist (List.sublist_append_right _ _)).fresh
  | splices met owned arrival labeled placed ih =>
    have unseen := fresh.passed met (runs_inv arrival).2
    exact ih unseen.spliced.fresh
  | @branches ledger named between settled further later code rest frame current test thenBody
      elseBody fallThrough spot after _ _ _ met owned arrival labeled chosen thenPlaced elsePlaced settles
      placed ihThen ihElse ih =>
    have unseen := fresh.passed met (runs_inv arrival).2
    have unseenThen : Unseen stem taken thenBody := unseen.sublist (by simp)
    have unseenElse : Unseen stem taken (elseBody.getD []) := unseen.sublist (by simp)
    have unseenRest : Unseen stem taken (rest.pushFollowing frame).remaining :=
      unseen.sublist (by simp)
    have inThen := ihThen (by simpa using unseenThen.fresh)
    have inElse := ihElse (by simpa using unseenElse.fresh)
    have behind := ih (unseenRest.sublist leftover_sublist).fresh
    exact ((inThen.trans inElse).trans
      (.trans (.settle settles fun _ _ => unseenRest.fresh) behind)).since
        (chosen_of_successor chosen).sent
  | @inlines ledger named between later code rest frame current loop head body inner _ _ _ _ _ met owned
      arrival labeled isLoop plainInit start ready planned redirects placed kept ih =>
    have unseen := fresh.passed met (runs_inv arrival).2
    have unseenRest : Unseen stem taken (rest.pushFollowing frame).remaining :=
      unseen.sublist (by simp)
    have within := labels_of_loopOf isLoop
    rw [← redirect_labels redirects] at within
    have unseenInner := unseen.sublist (within.trans (List.sublist_append_left _ _))
    have inBody := ih (by simpa using unseenInner.fresh)
    apply (inBody.trans (.ofSendAll kept _)).since (layout_promising planned).sent
    rw [List.forall_mem_map]
    exact fun promise inside =>
      (unseenRest.sublist (labels_of_promised (layout_labels planned) inside)).fresh
  | splits met owned arrival labeled isLoop plainInit unready sent =>
    refine (Sends.ofSend sent ?_).since rfl
    rw [At.remaining_resumption met]
    exact fresh

end Hands

end Unnest.Flatten
