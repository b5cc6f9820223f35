import Unnest.Proofs.Flatten.Placed

/-! Which labels are bound while code is placed. Labels of code that has not been reached
are not bound, so no block is ever scheduled twice and no promise is dropped. -/

namespace Unnest.Flatten
open Script

section Arrival

variable {isBound : String → Bool} {current inner : Stmt}

theorem opens_inv {label : String} (arrival : arrive isBound current = .opens label) :
    isBound label = false ∧ ∃ inner, current = .labeled label inner := by
  unfold arrive at arrival
  split at arrival
  · split at arrival
    next => cases arrival
    next unbound =>
      cases arrival
      exact ⟨Bool.eq_false_iff.2 unbound, _, rfl⟩
  · split at arrival
    next => cases arrival
    next unbound =>
      cases arrival
      exact ⟨Bool.eq_false_iff.2 unbound, _, rfl⟩
  · cases arrival

theorem unwraps_inv (arrival : arrive isBound current = .unwraps inner) :
    ∃ label, current = .labeled label inner ∧ isBound label = true ∧ inner.ownLabel ≠ none := by
  unfold arrive at arrival
  split at arrival
  · split at arrival
    next bound =>
      cases arrival
      exact ⟨_, rfl, bound, nofun⟩
    next => cases arrival
  · split at arrival <;> cases arrival
  · cases arrival

theorem runs_inv (arrival : arrive isBound current = .runs inner) :
    inner.ownLabel = none ∧ Passed isBound current inner := by
  unfold arrive at arrival
  split at arrival
  · split at arrival <;> cases arrival
  · next label body nested =>
    split at arrival
    next bound =>
      cases arrival
      refine ⟨?_, .below bound⟩
      cases inner <;> first | rfl | exact absurd rfl (nested _ _)
    next => cases arrival
  · next plain =>
    cases arrival
    have own : current.ownLabel = none := by
      cases current <;> first | rfl | exact absurd rfl (plain _ _)
    exact ⟨own, .plain own⟩

theorem passed_of_unwraps (arrival : arrive isBound current = .unwraps inner) :
    Passed isBound current inner := by
  obtain ⟨label, rfl, bound, _⟩ := unwraps_inv arrival
  exact .below bound

/-- All labels but the bound one are still ahead. -/
theorem Passed.labels_cases (passed : Passed isBound current inner) :
    current.labels = inner.labels ∨
      ∃ label, isBound label = true ∧ current.labels = label :: inner.labels := by
  cases passed with
  | plain own => exact .inl rfl
  | @below label inner bound =>
    right
    exact ⟨label, bound, Stmt.labels_labeled label inner⟩

/-- Behind a label there is one statement that is not labeled. -/
theorem Passed.unique {other : Stmt} (passed : Passed isBound current inner)
    (own : inner.ownLabel = none) (also : Passed isBound current other)
    (plain : other.ownLabel = none) : inner = other := by
  cases passed with
  | plain =>
    cases also with
    | plain => rfl
    | below => cases own
  | below =>
    cases also with
    | plain => cases plain
    | below => rfl

theorem Passed.labels_subset (passed : Passed isBound current inner) :
    inner.labels ⊆ current.labels := by
  rcases passed.labels_cases with same | ⟨label, _, same⟩
  · exact same ▸ List.Subset.refl _
  · exact same ▸ List.subset_cons_self _ _

end Arrival

/-- What placing the statements may do to a ledger: it sends blocks, and every name it binds
is a label of the statements or made up on the way. -/
structure Grows (stem : String) (statements : List Stmt) (ledger later : Ledger) : Prop where
  sent : ∃ more, later.sent = ledger.sent ++ more
  minted : ledger.minted ≤ later.minted
  names : ∀ name ∈ later.names, name ∈ ledger.names ∨ name ∈ labels statements ∨
    MadeUp stem ledger later name
  distinct : ledger.names.Nodup → later.names.Nodup

section Grows

variable {stem : String} {statements others : List Stmt} {ledger between later : Ledger}

theorem Grows.refl : Grows stem statements ledger ledger where
  sent := ⟨[], (List.append_nil _).symm⟩
  minted := Nat.le_refl _
  names _ member := .inl member
  distinct := id

theorem Grows.names_subset (grows : Grows stem statements ledger later) :
    ledger.names ⊆ later.names := by
  obtain ⟨more, same⟩ := grows.sent
  rw [Ledger.names, Ledger.names, same, List.map_append]
  exact List.subset_append_left _ _

theorem Grows.sent_subset {statements : List Stmt} (grows : Grows stem statements ledger later) :
    ledger.sent ⊆ later.sent := by
  obtain ⟨more, same⟩ := grows.sent
  rw [same]
  exact List.subset_append_left _ _

theorem Grows.mono (grows : Grows stem others ledger later)
    (known : labels others ⊆ labels statements) : Grows stem statements ledger later where
  sent := grows.sent
  minted := grows.minted
  names name member := by
    rcases grows.names name member with before | label | made
    · exact .inl before
    · exact .inr (.inl (known label))
    · exact .inr (.inr made)
  distinct := grows.distinct

theorem Grows.trans (first : Grows stem statements ledger between)
    (second : Grows stem statements between later) : Grows stem statements ledger later where
  sent := by
    obtain ⟨front, same⟩ := first.sent
    obtain ⟨back, others⟩ := second.sent
    exact ⟨front ++ back, by rw [others, same, List.append_assoc]⟩
  minted := Nat.le_trans first.minted second.minted
  names name member := by
    rcases second.names name member with middle | label | made
    · rcases first.names name middle with before | label | made
      · exact .inl before
      · exact .inr (.inl label)
      · exact .inr (.inr (made.mono (Nat.le_refl _) second.minted))
    · exact .inr (.inl label)
    · exact .inr (.inr (made.mono first.minted (Nat.le_refl _)))
  distinct := second.distinct ∘ first.distinct

theorem Grows.ofMinted (sent : later.sent = ledger.sent) (minted : ledger.minted ≤ later.minted) :
    Grows stem statements ledger later where
  sent := ⟨[], by rw [sent, List.append_nil]⟩
  minted := minted
  names name member := .inl (by rwa [Ledger.names, sent] at member)
  distinct distinct := by rwa [Ledger.names, sent]

/-- Blocks are sent under names that have been made up since an earlier ledger. -/
theorem Grows.thenSend (grows : Grows stem statements ledger between) {block : Pending}
    (sent : between.send? block = some later)
    (known : block.name ∈ labels statements ∨ MadeUp stem ledger between block.name) :
    Grows stem statements ledger later where
  sent := by
    obtain ⟨more, same⟩ := grows.sent
    exact ⟨more ++ [block], by rw [(Ledger.send_inv sent).2, same, List.append_assoc]⟩
  minted := by
    rw [(Ledger.send_inv sent).2]
    exact grows.minted
  names name member := by
    have same : later.minted = between.minted := by rw [(Ledger.send_inv sent).2]
    rw [MadeUp, same]
    rw [Ledger.names_of_send sent, List.mem_append, List.mem_singleton] at member
    rcases member with before | rfl
    · exact grows.names name before
    · exact .inr known
  distinct := Ledger.names_nodup_of_send sent ∘ grows.distinct

theorem Grows.thenSendAll (grows : Grows stem statements ledger between) {blocks : List Pending}
    (sent : between.sendAll? blocks = some later)
    (known : ∀ block ∈ blocks, block.name ∈ labels statements ∨
      MadeUp stem ledger between block.name) : Grows stem statements ledger later := by
  induction blocks generalizing between with
  | nil =>
    cases sent
    exact grows
  | cons block rest ih =>
    obtain ⟨middle, first, others⟩ := Option.bind_eq_some_iff.1 sent
    apply ih (grows.thenSend first (known block (List.mem_cons_self ..))) others
    intro other member
    have same : middle.minted = between.minted := by rw [(Ledger.send_inv first).2]
    rw [MadeUp, same]
    exact known other (List.mem_cons_of_mem _ member)

theorem Chosen.grows {fallThrough : String} {following : List Stmt} {after : Successor}
    (chosen : Chosen stem ledger fallThrough following after later) (statements : List Stmt) :
    Grows stem statements ledger later :=
  .ofMinted chosen.sent chosen.minted

/-- The label of the following code may go to a block when a branch has been placed. -/
theorem Grows.settle (grows : Grows stem statements between later) {fallThrough : String}
    {following : Continuation Stmt} {after : Successor} {settled : Ledger}
    (chosen : Chosen stem ledger fallThrough following.remaining after between)
    (settles : later.settle? after following fallThrough = some settled) :
    Grows stem statements ledger settled := by
  have whole := (chosen.grows statements).trans grows
  cases after with
  | next | fallThrough =>
    cases settles
    exact whole
  | fresh name =>
    apply whole.thenSend settles
    right
    generalize following.remaining = remains at chosen
    cases chosen
    exact madeUp_mint.mono (Nat.le_refl _) grows.minted

theorem sent_subset_of_settle {fallThrough : String} {following : Continuation Stmt}
    {after : Successor} {settled : Ledger}
    (settles : ledger.settle? after following fallThrough = some settled) :
    ledger.sent ⊆ settled.sent := by
  cases after with
  | next | fallThrough =>
    cases settles
    exact List.Subset.refl _
  | fresh name =>
    rw [(Ledger.send_inv settles).2]
    exact List.subset_append_left _ _

/-- Settling a branch makes nothing up. -/
theorem settle_inv {fallThrough : String} {following : Continuation Stmt} {after : Successor}
    (settles : ledger.settle? after following fallThrough = some later) :
    ledger.names ⊆ later.names ∧ later.minted = ledger.minted := by
  cases after with
  | next | fallThrough =>
    cases settles
    exact ⟨List.Subset.refl _, rfl⟩
  | fresh name =>
    rw [Ledger.names_of_send settles, (Ledger.send_inv settles).2]
    exact ⟨List.subset_append_left _ _, rfl⟩

theorem body_subset_children {loop : Stmt} {head : LoopHead} {body : List Stmt}
    (isLoop : loopOf loop = some (head, body)) : body ⊆ loop.children := by
  cases loop <;> simp only [loopOf, reduceCtorEq, Option.some.injEq, Prod.mk.injEq] at isLoop <;>
    obtain ⟨rfl, rfl⟩ := isLoop
  · exact List.Subset.refl _
  · exact List.Subset.refl _
  · exact List.subset_cons_self _ _

theorem labels_of_loopOf {loop : Stmt} {head : LoopHead} {body : List Stmt}
    (isLoop : loopOf loop = some (head, body)) : List.Sublist (labels body) loop.labels := by
  rw [Stmt.labels_children]
  apply List.Sublist.trans _ (List.sublist_append_right _ _)
  cases loop <;> simp only [loopOf, reduceCtorEq, Option.some.injEq, Prod.mk.injEq] at isLoop <;>
    obtain ⟨rfl, rfl⟩ := isLoop
  · exact List.Sublist.refl _
  · exact List.Sublist.refl _
  · rw [Stmt.children, labels_cons]
    exact List.sublist_append_right _ _

theorem Passed.subset {isBound : String → Bool} {code rest : Continuation Stmt}
    {frame : Frame Stmt} {current inner : Stmt} (met : code.At frame rest current)
    (passed : Passed isBound current inner) :
    labels (inner :: (rest.pushFollowing frame).remaining) ⊆ labels code.remaining := by
  intro label member
  rw [met.remaining, labels_cons, List.mem_append]
  rw [labels_cons, List.mem_append] at member
  exact member.imp_left fun inside => passed.labels_subset inside

theorem leftover_sublist {after : Successor} {following : Continuation Stmt} :
    List.Sublist (labels (after.leftover following).remaining) (labels following.remaining) := by
  cases after with
  | fresh name => exact List.nil_sublist _
  | next | fallThrough => exact List.Sublist.refl _

theorem Placed.grows {fallThrough : String} {code : Continuation Stmt} {spot : Spot}
    {out : List Stmt} (placed : Placed stem ledger code fallThrough spot out later) :
    Grows stem code.remaining ledger later := by
  induction placed with
  | ends nothing => exact .refl
  | opens met owned arrival sent =>
    obtain ⟨_, inner, rfl⟩ := opens_inv arrival
    apply Grows.refl.thenSend sent
    left
    rw [met.remaining]
    simp
  | unwraps met owned arrival placed ih =>
    apply ih.mono
    apply List.Subset.trans _ ((passed_of_unwraps arrival).subset met)
    simp [Frame.remaining]
  | copies met owned arrival free plain placed ih =>
    apply ih.mono
    apply List.Subset.trans _ ((runs_inv arrival).2.subset met)
    simp
  | splices met owned arrival labeled placed ih =>
    apply ih.mono
    apply List.Subset.trans _ ((runs_inv arrival).2.subset met)
    simp [Frame.remaining]
  | branches met owned arrival labeled chosen thenPlaced elsePlaced settles placed ihThen ihElse ih =>
    have known := (runs_inv arrival).2.subset met
    have chosen := chosen_of_successor chosen
    rw [labels_cons, Stmt.labels_branch, List.append_subset, List.append_subset] at known
    obtain ⟨⟨knownThen, knownElse⟩, knownRest⟩ := known
    have inThen := ihThen.mono (by simpa using knownThen)
    have inElse := ihElse.mono (by simpa using knownElse)
    have rest := ih.mono (List.Subset.trans leftover_sublist.subset knownRest)
    exact ((inThen.trans inElse).settle chosen settles).trans rest
  | @inlines ledger named _ _ code _ _ _ _ _ _ inner _ loopName _ _ _ met owned arrival labeled isLoop
      plainInit start ready planned redirects placed kept ih =>
    have known := (runs_inv arrival).2.subset met
    rw [labels_cons, List.append_subset] at known
    obtain ⟨knownLoop, knownRest⟩ := known
    have promising := layout_promising planned
    have knownBody := List.Subset.trans (labels_of_loopOf isLoop).subset knownLoop
    rw [← redirect_labels redirects, ← Continuation.remaining_ofBlock inner] at knownBody
    have inBody := ih.mono knownBody
    have inlining : Grows stem code.remaining ledger (named.inline loopName) :=
      .ofMinted promising.sent promising.minted
    apply (inlining.trans inBody).thenSendAll kept
    intro block member
    obtain ⟨promise, inside, rfl⟩ := List.mem_map.1 member
    cases promising.promised promise inside with
    | madeUp made => exact .inr (made.mono (Nat.le_refl _) inBody.minted)
    | labeled same ahead =>
      left
      apply knownRest
      rw [ahead]
      simp
  | @splits ledger _ code _ _ _ _ _ _ _ _ met owned arrival labeled isLoop plainInit unready sent =>
    have moving : Grows stem code.remaining ledger (ledger.mint.move (ledger.upcoming stem)) :=
      .ofMinted rfl (Nat.le_succ _)
    exact moving.thenSend sent (.inr madeUp_mint)

end Grows

/-- No label of the statements is taken, and none looks made up. -/
structure Unseen (stem : String) (taken : List String) (statements : List Stmt) : Prop where
  distinct : (labels statements).Nodup
  named : ∀ label ∈ labels statements, ∀ index, label ≠ Mint.nameAt stem index
  unbound : ∀ label ∈ labels statements, label ∉ taken

/-- No label of the statements is taken, except that the block in the making may have the
label that they start with. -/
structure Fresh (stem : String) (taken : List String) (statements : List Stmt) : Prop where
  distinct : (labels statements).Nodup
  named : ∀ label ∈ labels statements, ∀ index, label ≠ Mint.nameAt stem index
  unbound : ∀ label ∈ labels statements, label ∈ taken →
    ∃ body rest, statements = .labeled label body :: rest

section Fresh

variable {stem : String} {statements part others : List Stmt} {ledger later : Ledger}
  {taken : List String}

theorem Unseen.fresh (unseen : Unseen stem taken statements) : Fresh stem taken statements where
  distinct := unseen.distinct
  named := unseen.named
  unbound label member bound := absurd bound (unseen.unbound label member)

theorem Unseen.sublist (unseen : Unseen stem taken statements)
    (within : List.Sublist (labels part) (labels statements)) : Unseen stem taken part where
  distinct := unseen.distinct.sublist within
  named label member := unseen.named label (within.subset member)
  unbound label member := unseen.unbound label (within.subset member)

theorem Unseen.single {inner : Stmt} {following : Continuation Stmt} {afterInit : Bool}
    (unseen : Unseen stem taken (inner :: following.remaining)) :
    Unseen stem taken (following.push ⟨[inner], 0, afterInit⟩).remaining := by
  rwa [Continuation.remaining_push_block]

theorem Unseen.spliced {body : List Stmt} {following : Continuation Stmt}
    (unseen : Unseen stem taken (.block body :: following.remaining)) :
    Unseen stem taken (following.push ⟨body, 0, false⟩).remaining := by
  rw [Continuation.remaining_push_block]
  exact unseen.sublist (by simp)

theorem Unseen.halves (unseen : Unseen stem taken statements) (front back : List Stmt)
    (within : List.Sublist (labels front ++ labels back) (labels statements)) :
    Unseen stem taken front ∧ Unseen stem taken back ∧
      ∀ label ∈ labels back, label ∉ labels front := by
  refine ⟨unseen.sublist ((List.sublist_append_left _ _).trans within),
    unseen.sublist ((List.sublist_append_right _ _).trans within), ?_⟩
  obtain ⟨_, _, apart⟩ := List.nodup_append.1 (unseen.distinct.sublist within)
  exact fun label inBack inFront => apart label inFront label inBack rfl

/-- Placing other code leaves the labels unbound. -/
theorem Unseen.grown (unseen : Unseen stem ledger.names statements)
    (grows : Grows stem others ledger later)
    (apart : ∀ label ∈ labels statements, label ∉ labels others) :
    Unseen stem later.names statements where
  distinct := unseen.distinct
  named := unseen.named
  unbound label member bound := by
    rcases grows.names label bound with before | inside | ⟨index, _, _, same⟩
    · exact unseen.unbound label member before
    · exact apart label member inside
    · exact unseen.named label member index same

theorem Fresh.grown (fresh : Fresh stem ledger.names statements) (grows : Grows stem others ledger later)
    (apart : ∀ label ∈ labels statements, label ∉ labels others) :
    Fresh stem later.names statements where
  distinct := fresh.distinct
  named := fresh.named
  unbound label member bound := by
    rcases grows.names label bound with before | inside | ⟨index, _, _, same⟩
    · exact fresh.unbound label member before
    · exact absurd inside (apart label member)
    · exact absurd same (fresh.named label member index)

/-- Behind the first label nothing is bound. -/
theorem Fresh.passed {isBound : String → Bool} {code rest : Continuation Stmt}
    {frame : Frame Stmt} {current inner : Stmt}
    (fresh : Fresh stem taken code.remaining) (met : code.At frame rest current)
    (passed : Passed isBound current inner) :
    Unseen stem taken (inner :: (rest.pushFollowing frame).remaining) := by
  obtain ⟨distinct, named, unbound⟩ := fresh
  rw [met.remaining] at distinct named unbound
  cases passed with
  | plain own =>
    refine ⟨distinct, named, fun label member bound => ?_⟩
    obtain ⟨body, rest, same⟩ := unbound label member bound
    cases same
    cases own
  | below bound =>
    simp only [labels_cons, Stmt.labels_labeled, List.cons_append, List.nodup_cons] at distinct
    refine ⟨distinct.2, fun label member => named label ?_, fun label member bound => ?_⟩
    · rw [labels_cons, Stmt.labels_labeled]
      exact List.mem_cons_of_mem _ member
    · obtain ⟨body, rest, same⟩ := unbound label
        (by rw [labels_cons, Stmt.labels_labeled]; exact List.mem_cons_of_mem _ member) bound
      cases same
      exact distinct.1 member

end Fresh

end Unnest.Flatten
