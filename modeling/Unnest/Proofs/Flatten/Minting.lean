import Unnest.Proofs.Flatten.HandsOn

/-! How many names a run makes up. A branch that contains labels takes one, a loop up to
three, one of them for the block that the loop is moved to. The block starts with the loop
and does not move it again, which is a credit of one name. -/

namespace Unnest.Flatten
open Script

/-- The names that taking apart one statement of the kind can take. -/
def cost : Kind → Nat
  | .branch => 1
  | .whileLoop => 2
  | .doLoop => 3
  | .forLoop => 3
  | _ => 0

/-- The statement is taken apart in a way that can take names. -/
def siteOf (statement : Stmt) : Option Kind :=
  if statement.containsLabels && cost statement.kind != 0 then some statement.kind else none

/-- The kinds of the branches and loops that contain labels. -/
def sites (statement : Stmt) : List Kind := statement.nodes.filterMap siteOf

/-- The names that flattening the statements can take. -/
def mints (statements : List Stmt) : Nat := ((statements.flatMap sites).map cost).sum

theorem sites_eq (statement : Stmt) :
    sites statement = (siteOf statement).toList ++ statement.children.flatMap sites := by
  rw [sites, Stmt.nodes_eq, List.filterMap_cons, List.filterMap_flatMap]
  cases siteOf statement <;> rfl

@[simp] theorem mints_nil : mints [] = 0 := rfl

@[simp] theorem mints_append (front back : List Stmt) :
    mints (front ++ back) = mints front + mints back := by
  simp [mints]

theorem mints_cons (first : Stmt) (rest : List Stmt) :
    mints (first :: rest) = mints [first] + mints rest := mints_append [first] rest

theorem mints_singleton (statement : Stmt) :
    mints [statement] =
      (if statement.containsLabels then cost statement.kind else 0) + mints statement.children := by
  rw [mints, List.flatMap_singleton, sites_eq, siteOf]
  by_cases labeled : statement.containsLabels = true
  · by_cases free : cost statement.kind = 0
    · simp [labeled, free, mints]
    · simp [labeled, free, mints]
  · simp [labeled, mints]

theorem siteOf_redirected {targets : LoopTargets} {before after : Stmt}
    (success : redirectStmt targets before = .ok after) : siteOf after = siteOf before := by
  rw [siteOf, siteOf, redirectStmt_containsLabels success]
  cases redirected_of_redirectStmt success with
  | breaks | continues => simp [Stmt.kind, cost]
  | kept | block | branch | labeled => rfl

theorem mints_redirect {targets : LoopTargets} {body inner : List Stmt}
    (redirects : redirect targets body = .ok inner) : mints inner = mints body := by
  rw [mints, mints, (redirectedAll_of_redirect redirects).flatMap_eq fun _ _ _ success =>
    flatMap_of_redirectStmt (fun statement => (siteOf statement).toList) sites_eq
      (fun _ _ success => by rw [siteOf_redirected success]) success]

theorem cost_le_three (kind : Kind) : cost kind ≤ 3 := by
  cases kind <;> decide

/-- Labels and made-up names together are fewer than twice the weight. -/
theorem labels_mints_le (statement : Stmt) :
    statement.labels.length + mints [statement] ≤ 2 * statement.weight := by
  induction statement using Stmt.childInduction with
  | step parent ih =>
    have below : ∀ children : List Stmt, (∀ child ∈ children, child ∈ parent.children) →
        (labels children).length + mints children ≤ 2 * weight children := by
      intro children within
      induction children with
      | nil => exact Nat.le_refl _
      | cons first rest later =>
        have here := ih first (within first (List.mem_cons_self ..))
        have others := later fun child member => within child (List.mem_cons_of_mem _ member)
        rw [labels_cons, List.length_append, mints_cons, weight_cons]
        omega
    have children := below parent.children fun _ member => member
    have own : parent.ownLabel.toList.length ≤ 1 := by cases parent.ownLabel <;> simp
    have atMost := cost_le_three parent.kind
    rw [mints_singleton, Stmt.labels_children, List.length_append, Stmt.weight_children]
    split <;> omega

theorem labels_mints_body_le (body : List Stmt) :
    (labels body).length + mints body ≤ 2 * weight body := by
  induction body with
  | nil => exact Nat.le_refl _
  | cons first rest ih =>
    have here := labels_mints_le first
    rw [labels_cons, List.length_append, mints_cons, weight_cons]
    omega

/-- The code starts with a loop that is ready to be taken apart. -/
def startsLoop (isBound : String → Bool) (code : Continuation Stmt) : Bool :=
  match code.frames with
  | [] => false
  | frame :: _ =>
    match frame.current.map (arrive isBound) with
    | some (.runs loop) =>
      loop.containsLabels &&
        match loopOf loop with
        | some (head, _) => (head.pendingInit frame.afterInit).isEmpty
        | none => false
    | _ => false

/-- One name less is made up when a block starts with a loop. -/
def credit (ledger : Ledger) (code : Continuation Stmt) : Nat :=
  (startsLoop ledger.isBound code).toNat

section Credit

variable {isBound : String → Bool} {code rest : Continuation Stmt} {frame : Frame Stmt}
  {current loop : Stmt} {head : LoopHead} {body : List Stmt}

theorem startsLoop_of_at (met : code.At frame rest current) : startsLoop isBound code =
    match arrive isBound current with
    | .runs loop =>
      loop.containsLabels &&
        match loopOf loop with
        | some (head, _) => (head.pendingInit frame.afterInit).isEmpty
        | none => false
    | _ => false := by
  rw [startsLoop, met.frames]
  simp only [met.here, Option.map_some]
  cases arrive isBound current <;> rfl

theorem startsLoop_loop (met : code.At frame rest current)
    (arrival : arrive isBound current = .runs loop) (labeled : loop.containsLabels = true)
    (isLoop : loopOf loop = some (head, body)) :
    startsLoop isBound code = (head.pendingInit frame.afterInit).isEmpty := by
  rw [startsLoop_of_at met]
  simp only [arrival, labeled, isLoop, Bool.true_and]

/-- Behind a label that is bound, the same names can be made up. -/
theorem Passed.mints {inner : Stmt} (passed : Passed isBound current inner) :
    mints [current] = mints [inner] := by
  cases passed with
  | plain own => rfl
  | @below label inner bound =>
    rw [mints_singleton, Stmt.children]
    simp [Stmt.kind, cost]

/-- The names that taking apart a loop can take. -/
def LoopHead.cost : LoopHead → Nat
  | .whileHead _ => 2
  | .doHead _ => 3
  | .forHead .. => 3

theorem LoopHead.one_le_cost (head : LoopHead) : 1 ≤ head.cost := by
  cases head <;> simp [LoopHead.cost]

theorem sites_free {statement : Stmt} (free : statement.labels = []) : sites statement = [] := by
  rw [sites, List.filterMap_eq_nil_iff]
  intro node member
  rw [siteOf, unlabeled_of_free (Stmt.labels_eq_nil_iff.1 free) member]
  rfl

theorem mints_loop (labeled : loop.containsLabels = true)
    (isLoop : loopOf loop = some (head, body)) :
    mints [loop] = head.cost + mints (loop.children) := by
  rw [mints_singleton, if_pos labeled]
  cases loop <;> simp only [loopOf, reduceCtorEq, Option.some.injEq, Prod.mk.injEq] at isLoop <;>
    obtain ⟨rfl, rfl⟩ := isLoop <;> rfl

/-- A branch that is taken apart can take a name, and so can its bodies. -/
theorem mints_branch {test : Expr} {thenBody : List Stmt} {elseBody : Option (List Stmt)}
    (labeled : (Stmt.branch test thenBody elseBody).containsLabels = true) :
    mints [.branch test thenBody elseBody] = 1 + (mints thenBody + mints (elseBody.getD [])) := by
  rw [mints_singleton, if_pos labeled, Stmt.children, mints_append]
  rfl

theorem mints_body_le (isLoop : loopOf loop = some (head, body)) :
    mints body ≤ mints loop.children := by
  cases loop <;> simp only [loopOf, reduceCtorEq, Option.some.injEq, Prod.mk.injEq] at isLoop <;>
    obtain ⟨rfl, rfl⟩ := isLoop
  · exact Nat.le_refl _
  · exact Nat.le_refl _
  · rw [Stmt.children, mints_cons]
    exact Nat.le_add_left _ _

/-- The names of the code are those of the statement that runs and of what follows it. -/
theorem mints_runs {statement : Stmt} (met : code.At frame rest current)
    (arrival : arrive isBound current = .runs statement) :
    mints code.remaining = mints [statement] + mints (rest.pushFollowing frame).remaining := by
  rw [met.remaining, mints_cons, (runs_inv arrival).2.mints]

/-- Below a bound label, the code can take the same names. -/
theorem mints_unwraps {inner : Stmt} {afterInit : Bool} (met : code.At frame rest current)
    (arrival : arrive isBound current = .unwraps inner) :
    mints ((rest.pushFollowing frame).push ⟨[inner], 0, afterInit⟩).remaining =
      mints code.remaining := by
  rw [met.remaining, mints_cons, (passed_of_unwraps arrival).mints,
    Continuation.remaining_push_block, mints_append]

/-- So can it when the statements of a block take its place. -/
theorem mints_splices (met : code.At frame rest current)
    (arrival : arrive isBound current = .runs (.block body)) :
    mints ((rest.pushFollowing frame).push ⟨body, 0, false⟩).remaining = mints code.remaining := by
  have inside : mints [.block body] = mints body := by
    simp [mints_singleton, Stmt.kind, cost, Stmt.children]
  rw [mints_runs met arrival, inside, Continuation.remaining_push_block, mints_append]

/-- Code that starts with a ready loop can make up two names at least. -/
theorem startsLoop_le_mints (isBound : String → Bool) (inside : code.Inside) :
    (startsLoop isBound code).toNat ≤ mints code.remaining := by
  rcases inside.cases with nothing | ⟨frame, rest, current, met⟩
  · obtain ⟨_ | ⟨first, frames⟩⟩ := code
    · exact Nat.le_refl _
    · cases nothing
  · rw [met.remaining, mints_cons]
    cases starts : startsLoop isBound code with
    | false => exact Nat.zero_le _
    | true =>
      rw [startsLoop_of_at met] at starts
      cases arrival : arrive isBound current with
      | opens label => simp [arrival] at starts
      | unwraps inner => simp [arrival] at starts
      | runs loop =>
        simp only [arrival, Bool.and_eq_true] at starts
        obtain ⟨labeled, starts⟩ := starts
        cases isLoop : loopOf loop with
        | none => simp [isLoop] at starts
        | some pair =>
          obtain ⟨head, body⟩ := pair
          have positive := head.one_le_cost
          rw [(runs_inv arrival).2.mints, mints_loop labeled isLoop, Bool.toNat_true]
          omega

theorem arrive_mono {isBound' : String → Bool}
    (more : ∀ name, isBound name = true → isBound' name = true)
    (arrival : arrive isBound current = .runs loop) : arrive isBound' current = .runs loop := by
  obtain ⟨own, passed⟩ := runs_inv arrival
  cases passed with
  | plain own => cases current <;> first | rfl | cases own
  | @below label inner bound =>
    have still := more label bound
    cases loop <;> first | cases own; done | simp [arrive, still]

/-- A loop that is ready stays ready when more names are bound. -/
theorem startsLoop_mono {isBound' : String → Bool}
    (more : ∀ name, isBound name = true → isBound' name = true)
    (starts : startsLoop isBound code = true) : startsLoop isBound' code = true := by
  obtain ⟨_ | ⟨frame, frames⟩⟩ := code
  · cases starts
  · unfold startsLoop at starts ⊢
    cases here : frame.current with
    | none => simp [here] at starts
    | some current =>
      simp only [here, Option.map_some] at starts ⊢
      cases arrival : arrive isBound current with
      | opens label => simp [arrival] at starts
      | unwraps inner => simp [arrival] at starts
      | runs loop =>
        rw [arrival] at starts
        rw [arrive_mono more arrival]
        exact starts

end Credit

section Spends

variable {stem fallThrough : String} {ledger between later named : Ledger} {budget others : Nat}

/-- The names that blocks can still make up, and what they have to their credit. -/
def dues (blocks : List Pending) : Nat :=
  (blocks.map fun block => mints block.continuation.remaining).sum

def credits (ledger : Ledger) (blocks : List Pending) : Nat :=
  (blocks.map fun block => credit ledger block.continuation).sum

/-- The names made up in between, and those that the blocks scheduled in between can make up,
stay within a budget. -/
def Spends (budget : Nat) (ledger later : Ledger) : Prop :=
  ∃ more, later.sent = ledger.sent ++ more ∧
    later.minted + dues more ≤ ledger.minted + budget + credits later more

theorem credits_mono {more : List Pending} (sent : later.sent = ledger.sent ++ more)
    (blocks : List Pending) : credits ledger blocks ≤ credits later blocks := by
  have still : ∀ name, ledger.isBound name = true → later.isBound name = true := by
    intro name bound
    rw [Ledger.isBound_iff] at bound ⊢
    rw [names_of_sent sent]
    exact List.mem_append_left _ bound
  induction blocks with
  | nil => exact Nat.le_refl _
  | cons block rest ih =>
    have here : credit ledger block.continuation ≤ credit later block.continuation := by
      unfold credit
      cases starts : startsLoop ledger.isBound block.continuation with
      | false => exact Nat.zero_le _
      | true => exact Nat.le_of_eq (by rw [startsLoop_mono still starts])
    simp only [credits, List.map_cons, List.sum_cons] at ih ⊢
    omega

theorem Spends.trans (first : Spends budget ledger between) (second : Spends others between later) :
    Spends (budget + others) ledger later := by
  obtain ⟨front, sentFront, within⟩ := first
  obtain ⟨back, sentBack, under⟩ := second
  refine ⟨front ++ back, by rw [sentBack, sentFront, List.append_assoc], ?_⟩
  have more := credits_mono sentBack front
  simp only [dues, credits, List.map_append, List.sum_append] at *
  omega

theorem Spends.mono (spends : Spends budget ledger later) (enough : budget ≤ others) :
    Spends others ledger later := by
  obtain ⟨more, sent, within⟩ := spends
  exact ⟨more, sent, by omega⟩

theorem Spends.minted (spends : Spends budget between later)
    (same : between.sent = ledger.sent) (added : between.minted ≤ ledger.minted + others) :
    Spends (others + budget) ledger later := by
  obtain ⟨more, sent, within⟩ := spends
  exact ⟨more, by rw [sent, same], by omega⟩

theorem Spends.none : Spends 0 ledger ledger :=
  ⟨[], (List.append_nil _).symm, Nat.le_refl _⟩

theorem Spends.ofSendAll {blocks : List Pending} (sent : ledger.sendAll? blocks = some later) :
    Spends (dues blocks) ledger later := by
  rw [Ledger.sendAll_inv sent]
  exact ⟨blocks, rfl, Nat.le_add_right _ _⟩

theorem Spends.ofSend {block : Pending} (sent : ledger.send? block = some later) :
    Spends (mints block.continuation.remaining) ledger later := by
  rw [(Ledger.send_inv sent).2]
  exact ⟨[block], rfl, by simp [dues]⟩

theorem Chosen.cost {following : List Stmt} {after : Successor}
    (chosen : Chosen stem ledger fallThrough following after named) :
    named.minted ≤ ledger.minted + 1 := by
  cases chosen with
  | nothing | labeled => exact Nat.le_succ _
  | plain own => exact Nat.le_refl _

/-- Taking a loop apart in place costs one name less than moving it first. -/
theorem layout_cost {head : LoopHead} {body : List Stmt} {loopName : String} {plan : LoopPlan}
    {following : Continuation Stmt}
    (planned : layout stem head body loopName following fallThrough ledger = (plan, named)) :
    named.minted + 1 ≤ ledger.minted + head.cost := by
  have after := (chosen_successor stem ledger following.remaining fallThrough).cost
  have afterMint := (chosen_successor stem ledger.mint following.remaining fallThrough).cost
  cases head with
  | whileHead condition =>
    cases planned
    exact Nat.succ_le_succ after
  | doHead condition =>
    unfold layout at planned
    cases breaks : containsBreak body with
    | true =>
      simp only [breaks, if_true] at planned
      cases planned
      exact Nat.succ_le_succ afterMint
    | false =>
      simp only [breaks, Bool.false_eq_true, if_false] at planned
      cases planned
      exact Nat.le_succ _
  | forHead init condition iterator =>
    cases iterator with
    | none =>
      cases planned
      exact Nat.le_succ_of_le (Nat.succ_le_succ after)
    | some iterator =>
      cases planned
      exact Nat.succ_le_succ afterMint

theorem dues_eq (blocks : List Pending) : dues blocks =
    ((blocks.flatMap fun block => block.continuation.remaining.flatMap sites).map Flatten.cost).sum := by
  induction blocks with
  | nil => rfl
  | cons block rest ih =>
    rw [List.flatMap_cons, List.map_append, List.sum_append, ← ih]
    rfl

theorem layout_dues {head : LoopHead} {body : List Stmt} {loopName : String} {plan : LoopPlan}
    {following : Continuation Stmt}
    (planned : layout stem head body loopName following fallThrough ledger = (plan, named)) :
    dues (plan.promises.map Promise.block) = mints following.remaining := by
  have conserved := layout_conserves sites (fun _ => sites_free (Stmt.labels_goto _))
    (fun _ => sites_free (Stmt.labels_expression _))
    (fun _ => sites_free (by simp [loopCheck, Stmt.ifThen])) planned
  rw [mints, ← conserved, dues_eq, List.flatMap_map]

theorem Spends.settle {following : Continuation Stmt} {after : Successor} {settled : Ledger}
    (settles : ledger.settle? after following fallThrough = some settled)
    (spends : Spends (mints (after.leftover following).remaining) settled later) :
    Spends (mints following.remaining) ledger later := by
  cases after with
  | next | fallThrough =>
    cases settles
    exact spends
  | fresh name => exact (Spends.ofSend settles).trans spends

theorem credit_le_one (ledger : Ledger) (code : Continuation Stmt) : credit ledger code ≤ 1 :=
  Bool.toNat_le _

/-- A credit counts where it can be drawn on, at the start of a block. -/
theorem drawn_le_one (reentry : Option String) (ledger : Ledger) (code : Continuation Stmt) :
    (if reentry.isSome then credit ledger code else 0) ≤ 1 := by
  have atMost := credit_le_one ledger code
  split <;> omega

theorem drawn_eq_zero {code : Continuation Stmt} (reentry : Option String)
    (nothing : credit ledger code = 0) :
    (if reentry.isSome then credit ledger code else 0) = 0 := by
  rw [nothing, ite_self]

/-- A block that starts with something else has nothing to its credit. -/
theorem credit_eq_zero {code rest : Continuation Stmt} {frame : Frame Stmt}
    {current statement : Stmt} (met : code.At frame rest current)
    (arrival : arrive ledger.isBound current = .runs statement)
    (other : statement.containsLabels = false ∨ loopOf statement = none) :
    credit ledger code = 0 := by
  rw [credit, startsLoop_of_at met]
  rcases other with free | plain
  · simp [arrival, free]
  · simp [arrival, plain]

theorem credit_unwraps {code rest : Continuation Stmt} {frame : Frame Stmt} {current inner : Stmt}
    (met : code.At frame rest current) (arrival : arrive ledger.isBound current = .unwraps inner) :
    credit ledger code = 0 := by
  rw [credit, startsLoop_of_at met, arrival]
  rfl

/-- The block that a loop is moved to starts with the loop, and its initializer has run. -/
theorem startsLoop_resumption {code rest : Continuation Stmt} {frame : Frame Stmt}
    {current loop : Stmt} {head : LoopHead} {body : List Stmt} {block : Pending}
    (met : code.At frame rest current) (arrival : arrive ledger.isBound current = .runs loop)
    (labeled : loop.containsLabels = true) (isLoop : loopOf loop = some (head, body))
    (sent : (ledger.mint.move (ledger.upcoming stem)).send? block = some later) :
    startsLoop later.isBound (rest.push (head.resumption frame)) = true := by
  have still : arrive later.isBound current = .runs loop := by
    apply arrive_mono _ arrival
    intro name bound
    rw [Ledger.isBound_iff] at bound ⊢
    rw [Ledger.names_of_send sent]
    exact List.mem_append_left _ bound
  rw [startsLoop_loop (At.resumption met head) still labeled isLoop, head.pendingInit_resumption]
  rfl

/-- Placing code stays within what its branches and loops may cost, and a block that starts
with a loop has a name to spare. -/
theorem Placed.spends {code : Continuation Stmt} {spot : Spot} {out : List Stmt}
    (placed : Placed stem ledger code fallThrough spot out later) :
    ∃ budget, Spends budget ledger later ∧
      budget + (if spot.reentry.isSome then credit ledger code else 0) ≤ mints code.remaining := by
  induction placed with
  | @ends ledger code fallThrough spot nothing =>
    have drawn : credit ledger code = 0 := by
      obtain ⟨_ | ⟨frame, frames⟩⟩ := code
      · rfl
      · cases nothing
    refine ⟨0, .none, ?_⟩
    rw [drawn_eq_zero _ drawn]
    exact Nat.zero_le _
  | @opens ledger later code _ _ _ _ _ spot met owned arrival sent =>
    have drawn : credit ledger code = 0 := by
      rw [credit, startsLoop_of_at met, arrival]
      rfl
    refine ⟨mints code.remaining, .ofSend sent, ?_⟩
    rw [drawn_eq_zero _ drawn]
    exact Nat.le_refl _
  | unwraps met owned arrival placed ih =>
    obtain ⟨budget, spends, within⟩ := ih
    refine ⟨budget, spends, ?_⟩
    rw [drawn_eq_zero _ (credit_unwraps met arrival), ← mints_unwraps met arrival]
    exact Nat.le_of_add_right_le within
  | copies met owned arrival free plain placed ih =>
    obtain ⟨budget, spends, within⟩ := ih
    refine ⟨budget, spends, ?_⟩
    rw [drawn_eq_zero _ (credit_eq_zero met arrival (.inl free)), mints_runs met arrival]
    omega
  | splices met owned arrival labeled placed ih =>
    obtain ⟨budget, spends, within⟩ := ih
    refine ⟨budget, spends, ?_⟩
    rw [drawn_eq_zero _ (credit_eq_zero met arrival (.inr rfl)), ← mints_splices met arrival]
    exact Nat.le_of_add_right_le within
  | branches met owned arrival labeled chosen thenPlaced elsePlaced settles placed ihThen ihElse ih =>
    obtain ⟨budgetThen, spendsThen, withinThen⟩ := ihThen
    obtain ⟨budgetElse, spendsElse, withinElse⟩ := ihElse
    obtain ⟨budget, spends, within⟩ := ih
    have chosen := chosen_of_successor chosen
    have rest := Spends.settle settles (spends.mono (Nat.le_of_add_right_le within))
    have whole := (spendsThen.trans (spendsElse.trans rest)).minted chosen.sent chosen.cost
    refine ⟨_, whole, ?_⟩
    rw [drawn_eq_zero _ (credit_eq_zero met arrival (.inr rfl)), mints_runs met arrival,
      mints_branch labeled]
    rw [Continuation.remaining_ofBlock] at withinThen withinElse
    omega
  | @inlines ledger named between later code rest frame current loop head body inner flat loopName
      fallThrough spot plan met owned arrival labeled isLoop plainInit start ready planned redirects
      placed kept ih =>
    obtain ⟨budget, spends, within⟩ := ih
    have promising := layout_promising planned
    have promised := Spends.ofSendAll kept
    rw [layout_dues planned] at promised
    have cheap := layout_cost planned
    have few : named.minted ≤ ledger.minted + (head.cost - 1) := by omega
    have whole := (spends.trans promised).minted promising.sent few
    refine ⟨_, whole, ?_⟩
    have drawn := drawn_le_one spot.reentry ledger code
    have inBody := mints_body_le isLoop
    have positive := head.one_le_cost
    rw [mints_runs met arrival, mints_loop labeled isLoop]
    rw [Continuation.remaining_ofBlock, mints_redirect redirects] at within
    omega
  | @splits ledger later code rest frame current loop head body fallThrough spot met owned arrival
      labeled isLoop plainInit unready sent =>
    refine ⟨mints code.remaining, ?_, ?_⟩
    · have starts := startsLoop_resumption met arrival labeled isLoop sent
      refine ⟨_, by rw [(Ledger.send_inv sent).2]; rfl, ?_⟩
      simp only [dues, credits, List.map_singleton, List.sum_singleton, credit, starts,
        At.remaining_resumption met, Bool.toNat_true]
      rw [(Ledger.send_inv sent).2]
      simp only [Ledger.mint, Ledger.move]
      omega
    · rcases unready with spent | unready
      · simp [spent]
      · have waits := startsLoop_loop met arrival labeled isLoop
        rw [List.isEmpty_eq_false_iff.2 unready] at waits
        have drawn : credit ledger code = 0 := by
          rw [credit, waits]
          rfl
        rw [drawn_eq_zero _ drawn]
        exact Nat.le_refl _

theorem mints_leftover_le (after : Successor) (following : Continuation Stmt) :
    mints (after.leftover following).remaining ≤ mints following.remaining := by
  cases after with
  | fresh name => exact Nat.zero_le _
  | next | fallThrough => exact Nat.le_refl _

/-- Placing code makes up no more names than its branches and loops can take. -/
theorem Placed.minted_le {code : Continuation Stmt} {spot : Spot} {out : List Stmt}
    (placed : Placed stem ledger code fallThrough spot out later) :
    later.minted ≤ ledger.minted + mints code.remaining := by
  induction placed with
  | ends nothing => exact Nat.le_add_right _ _
  | opens met owned arrival sent =>
    rw [(Ledger.send_inv sent).2]
    exact Nat.le_add_right _ _
  | unwraps met owned arrival placed ih => rwa [mints_unwraps met arrival] at ih
  | copies met owned arrival free plain placed ih =>
    rw [mints_runs met arrival]
    omega
  | splices met owned arrival labeled placed ih => rwa [mints_splices met arrival] at ih
  | @branches _ _ _ _ _ _ _ rest frame _ _ _ _ _ _ after _ _ _ met owned arrival labeled chosen thenPlaced
      elsePlaced settles placed ihThen ihElse ih =>
    have made := (chosen_of_successor chosen).cost
    have same := (settle_inv settles).2
    have few := mints_leftover_le after (rest.pushFollowing frame)
    rw [mints_runs met arrival, mints_branch labeled]
    rw [Continuation.remaining_ofBlock] at ihThen ihElse
    omega
  | inlines met owned arrival labeled isLoop plainInit start ready planned redirects placed kept ih =>
    have made := layout_cost planned
    have inBody := mints_body_le isLoop
    have same := congrArg Ledger.minted (Ledger.sendAll_inv kept)
    rw [mints_runs met arrival, mints_loop labeled isLoop]
    rw [Continuation.remaining_ofBlock, mints_redirect redirects] at ih
    simp only [Ledger.inline] at ih same
    omega
  | @splits _ _ _ _ _ _ _ head _ _ _ met owned arrival labeled isLoop plainInit unready sent =>
    have positive := head.one_le_cost
    rw [mints_runs met arrival, mints_loop labeled isLoop, (Ledger.send_inv sent).2]
    simp only [Ledger.mint, Ledger.move]
    omega

end Spends

end Unnest.Flatten
