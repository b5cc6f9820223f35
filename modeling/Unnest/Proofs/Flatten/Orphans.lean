import Unnest.Proofs.Flatten.Free
import Unnest.Proofs.Flatten.OwnJumps
import Unnest.Proofs.Flatten.Unrun

/-! Which jumps flattening leaves without a loop. A block has a jump that belongs to nothing
exactly when some loop that is taken apart has a jump of its own that redirecting misses. -/

namespace Unnest.Flatten
open Script

/-- Redirecting the jumps of a loop with this body misses none of them. -/
def Reached (body : List Stmt) : Prop := ∀ statement ∈ body, ∀ jump, hidden jump statement = false

/-- So it is for every loop in the statement that is taken apart. -/
def AllReached (statement : Stmt) : Prop :=
  ∀ loop ∈ statement.nodes, ∀ head body, loop.containsLabels = true →
    loopOf loop = some (head, body) → Reached body

/-- The jumps in the statement belong to something in it, and will after flattening. -/
structure Contained (statement : Stmt) : Prop where
  own : ∀ jump, escapes jump statement = false
  loops : AllReached statement

section Contained

theorem AllReached.below {child parent : Stmt} (reached : AllReached parent)
    (below : child ∈ parent.children) : AllReached child :=
  fun loop member => reached loop (Stmt.mem_nodes_of_child below member)

theorem allReached_of_free {statement : Stmt} (free : statement.containsLabels = false) :
    AllReached statement := by
  intro loop member head body labeled
  rw [Stmt.containsLabels_of_node member labeled] at free
  cases free

theorem loopOf_binds {loop : Stmt} {head : LoopHead} {body : List Stmt}
    (isLoop : loopOf loop = some (head, body)) : bindsJumps loop.kind = true := by
  cases loop <;> first | rfl | cases isLoop

/-- A statement that binds no jump is contained when its children are. -/
theorem contained_of_children {statement : Stmt} (plain : ownJump statement = none)
    (every : ∀ jump, passing jump statement = statement.children)
    (noLoop : loopOf statement = none) :
    Contained statement ↔ ∀ child ∈ statement.children, Contained child := by
  constructor
  · rintro ⟨own, loops⟩ child below
    refine ⟨fun jump => ?_, loops.below below⟩
    have none := own jump
    rw [escapes_eq, every, Bool.or_eq_false_iff, List.any_eq_false] at none
    exact Bool.eq_false_iff.2 (none.2 child below)
  · intro all
    constructor
    · intro jump
      rw [escapes_eq, every, plain, Bool.or_eq_false_iff, List.any_eq_false]
      exact ⟨rfl, fun child below => Bool.eq_false_iff.1 ((all child below).own jump)⟩
    · intro loop member head body labeled isLoop
      rcases Stmt.mem_nodes_iff.1 member with rfl | ⟨child, below, deeper⟩
      · rw [noLoop] at isLoop
        cases isLoop
      · exact (all child below).loops loop deeper head body labeled isLoop

theorem contained_of_loop {loop : Stmt} {head : LoopHead} {inits body : List Stmt}
    (labeled : loop.containsLabels = true) (isLoop : loopOf loop = some (head, body))
    (plain : ownJump loop = none) (every : ∀ jump, passing jump loop = inits)
    (children : loop.children = inits ++ body) :
    Contained loop ↔ (∀ statement ∈ inits, Contained statement) ∧
      Reached body ∧ ∀ statement ∈ body, AllReached statement := by
  constructor
  · rintro ⟨own, loops⟩
    refine ⟨?_, loops loop (Stmt.mem_nodes_self loop) head body labeled isLoop, ?_⟩
    · intro statement member
      refine ⟨fun jump => ?_, loops.below (children ▸ List.mem_append_left _ member)⟩
      have none := own jump
      rw [escapes_eq, every, Bool.or_eq_false_iff, List.any_eq_false] at none
      exact Bool.eq_false_iff.2 (none.2 statement member)
    · exact fun statement member => loops.below (children ▸ List.mem_append_right _ member)
  · rintro ⟨inInits, reached, inBody⟩
    constructor
    · intro jump
      rw [escapes_eq, every, plain, Bool.or_eq_false_iff, List.any_eq_false]
      exact ⟨rfl, fun init member => Bool.eq_false_iff.1 ((inInits init member).own jump)⟩
    · intro other member otherHead otherBody otherLabeled otherLoop
      rcases Stmt.mem_nodes_iff.1 member with rfl | ⟨child, below, deeper⟩
      · rw [isLoop] at otherLoop
        cases otherLoop
        exact reached
      · rw [children] at below
        rcases List.mem_append.1 below with inInit | below
        · exact (inInits child inInit).loops other deeper otherHead otherBody otherLabeled otherLoop
        · exact inBody child below other deeper otherHead otherBody otherLabeled otherLoop

theorem contained_empty : Contained .empty :=
  (contained_of_children rfl (fun _ => rfl) rfl).2 nofun

/-- A loop that is taken apart is contained when its initializer is, as long as it has not
run, and redirecting misses no jump of its body. -/
theorem contained_loop {loop : Stmt} {head : LoopHead} {body : List Stmt} {afterInit : Bool}
    (labeled : loop.containsLabels = true) (isLoop : loopOf loop = some (head, body))
    (plainInit : head.labeledInit = none) :
    Contained (unrunOf afterInit loop) ↔
      (∀ statement ∈ head.pendingInit afterInit, Contained statement) ∧
        Reached body ∧ ∀ statement ∈ body, AllReached statement := by
  cases loop <;> simp only [loopOf, reduceCtorEq, Option.some.injEq, Prod.mk.injEq] at isLoop <;>
    obtain ⟨rfl, rfl⟩ := isLoop
  · next condition body =>
    have same : unrunOf afterInit (.whileLoop condition body) = .whileLoop condition body := by
      cases afterInit <;> rfl
    rw [same, contained_of_loop labeled rfl rfl (fun _ => rfl) (List.nil_append _).symm]
    rfl
  · next body condition =>
    have same : unrunOf afterInit (.doLoop body condition) = .doLoop body condition := by
      cases afterInit <;> rfl
    rw [same, contained_of_loop labeled rfl rfl (fun _ => rfl) (List.nil_append _).symm]
    rfl
  · next init condition iterator body =>
    cases afterInit with
    | false =>
      have whole : (∀ statement ∈ (LoopHead.forHead init condition iterator).pendingInit false,
          Contained statement) ↔ ∀ statement ∈ [init], Contained statement := by
        cases init with
        | empty => exact iff_of_true (List.forall_mem_nil _) (List.forall_mem_singleton.2 contained_empty)
        | _ => exact Iff.rfl
      rw [whole]
      exact contained_of_loop labeled rfl rfl (fun _ => rfl) rfl
    | true =>
      have none : (LoopHead.forHead init condition iterator).pendingInit true = [] := by
        cases init <;> rfl
      have free : init.containsLabels = false := by
        simpa [LoopHead.labeledInit] using plainInit
      have inBody : (Stmt.forLoop .empty condition iterator body).containsLabels = true := by
        rw [Stmt.containsLabels_eq, Stmt.children, List.any_cons] at labeled ⊢
        rw [free] at labeled
        simpa [Stmt.ownLabel, Stmt.containsLabels_eq .empty, Stmt.children] using labeled
      have split : (Stmt.forLoop .empty condition iterator body).children = [.empty] ++ body := rfl
      rw [none, unrunOf, if_pos rfl, withoutInit,
        contained_of_loop inBody rfl rfl (fun _ => rfl) split]
      refine and_congr_left' (iff_of_true ?_ (List.forall_mem_nil _))
      exact List.forall_mem_singleton.2 contained_empty

theorem contained_of_redirectStmt {targets : LoopTargets} {before after : Stmt}
    (success : redirectStmt targets before = .ok after)
    (reached : targets.breakTo = none → breaksOut before = false) :
    Contained after ↔ (∀ jump, hidden jump before = false) ∧ AllReached before := by
  constructor
  · rintro ⟨own, loops⟩
    refine ⟨fun jump => ?_, fun loop member head body labeled isLoop => ?_⟩
    · rw [← escapes_of_redirectStmt jump success reached]
      exact own jump
    · have inside := (mem_nodes_redirectStmt success (.inl (loopOf_binds isLoop))).2 member
      exact loops loop inside head body labeled isLoop
  · rintro ⟨own, loops⟩
    refine ⟨fun jump => ?_, fun loop member head body labeled isLoop => ?_⟩
    · rw [escapes_of_redirectStmt jump success reached]
      exact own jump
    · have inside := (mem_nodes_redirectStmt success (.inl (loopOf_binds isLoop))).1 member
      exact loops loop inside head body labeled isLoop

/-- The body of a loop that is taken apart is contained once its jumps are redirected, if
redirecting misses none of them. -/
theorem contained_of_redirect {targets : LoopTargets} {body inner : List Stmt}
    (redirects : redirect targets body = .ok inner)
    (reached : targets.breakTo = none → containsBreak body = false) :
    (∀ statement ∈ inner, Contained statement) ↔
      Reached body ∧ ∀ statement ∈ body, AllReached statement := by
  have all := redirectedAll_of_redirect redirects
  clear redirects
  rw [Reached, ← forall₂_and]
  induction all with
  | nil => exact Iff.intro nofun nofun
  | cons here _ ih =>
    simp only [containsBreak, List.any_cons, Bool.or_eq_false_iff] at reached ih
    rw [List.forall_mem_cons, List.forall_mem_cons]
    exact and_congr (contained_of_redirectStmt here fun nowhere => (reached nowhere).1)
      (ih fun nowhere => (reached nowhere).2)

theorem escapes_withoutInit (jump : Kind) {statement : Stmt} (inside : escapes jump statement = false) :
    escapes jump (withoutInit statement) = false := by
  induction statement using Stmt.childInduction with
  | step parent ih =>
    rw [escapes_eq, Bool.or_eq_false_iff, List.any_eq_false] at inside
    cases parent with
    | labeled label body =>
      have below := ih body (List.mem_singleton_self _)
        (Bool.eq_false_iff.2 (inside.2 body (List.mem_singleton_self _)))
      have every : passing jump (.labeled label (withoutInit body)) = [withoutInit body] := rfl
      rw [withoutInit, escapes_eq, every, List.any_cons, below]
      rfl
    | forLoop init condition iterator body =>
      rw [withoutInit, escapes_eq, passing, List.any_cons, escapes_eq]
      rfl
    | _ => exact (escapes_eq ..).trans (Bool.or_eq_false_iff.2 ⟨inside.1, List.any_eq_false.2 inside.2⟩)

theorem containsLabels_withoutInit {statement : Stmt} (free : statement.containsLabels = false) :
    (withoutInit statement).containsLabels = false := by
  cases statement with
  | labeled label body => cases (Stmt.containsLabels_eq _).symm.trans free
  | forLoop init condition iterator body =>
    rw [Stmt.containsLabels_eq, Stmt.children, List.any_cons, Bool.or_eq_false_iff,
      Bool.or_eq_false_iff] at free
    rw [withoutInit, Stmt.containsLabels_eq, Stmt.children, List.any_cons, free.2.2,
      Stmt.containsLabels_eq]
    rfl
  | _ => exact free

theorem contained_branch {test : Expr} {thenBody : List Stmt} {elseBody : Option (List Stmt)} :
    Contained (.branch test thenBody elseBody) ↔
      (∀ statement ∈ thenBody, Contained statement) ∧
        ∀ statement ∈ elseBody.getD [], Contained statement := by
  rw [contained_of_children rfl (fun _ => rfl) rfl, Stmt.children, List.forall_mem_append]

/-- The body of a loop, when redirecting misses no jump of it or of a loop in it. -/
theorem recovered_contained :
    Recovered (fun body => Reached body ∧ ∀ statement ∈ body, AllReached statement) Contained where
  block contained := (contained_of_children rfl (fun _ => rfl) rfl).2 contained
  branch := contained_branch
  labeled := (contained_of_children rfl (fun _ => rfl) rfl).trans List.forall_mem_singleton
  withoutInit free contained := ⟨fun jump => escapes_withoutInit jump (contained.own jump),
    allReached_of_free (containsLabels_withoutInit free)⟩
  loop := contained_loop
  redirect redirects reached := (contained_of_redirect redirects reached).1

theorem carried_contained : Carried (fun _ => True) Contained where
  block contained := (contained_of_children rfl (fun _ => rfl) rfl).1 contained
  branch := contained_branch
  labeled contained := ⟨trivial,
    (contained_of_children rfl (fun _ => rfl) rfl).1 contained _ (List.mem_singleton_self _)⟩
  goto _ := (contained_of_children rfl (fun _ => rfl) rfl).2 nofun
  expression := (contained_of_children rfl (fun _ => rfl) rfl).2 nofun
  init {init condition iterator body} contained := by
    refine ⟨fun jump => ?_, contained.loops.below (List.mem_cons_self ..)⟩
    have none := contained.own jump
    rw [escapes_eq, passing, Bool.or_eq_false_iff, List.any_cons, Bool.or_eq_false_iff] at none
    exact none.2.1
  loop contained labeled isLoop redirects reached _ _ := by
    rw [contained_of_redirect redirects reached]
    refine ⟨contained.loops _ (Stmt.mem_nodes_self _) _ _ labeled isLoop, ?_⟩
    exact fun statement member => contained.loops.below (body_subset_children isLoop member)

theorem allReached_of_children {statement : Stmt} (noLoop : loopOf statement = none) :
    AllReached statement ↔ ∀ child ∈ statement.children, AllReached child := by
  constructor
  · exact fun reached child below => reached.below below
  · intro all loop member head body labeled isLoop
    rcases Stmt.mem_nodes_iff.1 member with rfl | ⟨child, below, deeper⟩
    · rw [noLoop] at isLoop
      cases isLoop
    · exact all child below loop deeper head body labeled isLoop

theorem carried_allReached : Carried (fun _ => True) AllReached where
  block reached := (allReached_of_children rfl).1 reached
  branch {test thenBody elseBody} := by
    rw [allReached_of_children rfl, Stmt.children, List.forall_mem_append]
  labeled reached := ⟨trivial, (allReached_of_children rfl).1 reached _ (List.mem_singleton_self _)⟩
  goto _ := (allReached_of_children rfl).2 nofun
  expression := (allReached_of_children rfl).2 nofun
  init reached := reached.below (List.mem_cons_self ..)
  loop {loop head body inner targets} reached _ isLoop redirects _ _ _ := by
    intro statement member inside below head' body' labeled isLoop'
    have inBody : inside ∈ nodes body := mem_nodes_of_redirect redirects
      (.inl (loopOf_binds isLoop')) (mem_nodes.2 ⟨statement, member, below⟩)
    obtain ⟨child, inLoop, deeper⟩ := mem_nodes.1 inBody
    exact reached.below (body_subset_children isLoop inLoop) inside deeper head' body' labeled isLoop'

end Contained

variable {options : Options} {body : List Stmt} {blocks : List LabeledBlock}

theorem Flattened.contained_iff (flattened : Flattened options body blocks) :
    (∀ block ∈ blocks, ∀ statement ∈ block.statements, Contained statement) ↔
      ∀ statement ∈ body, Contained statement :=
  ⟨flattened.recovers recovered_contained, flattened.carried carried_contained⟩

/-- Blocks hold no labels, so in them a jump is contained as soon as it belongs to something. -/
theorem Flattened.contained_blocks (flattened : Flattened options body blocks) :
    (∀ block ∈ blocks, ∀ statement ∈ block.statements, Contained statement) ↔
      ∀ block ∈ blocks, ∀ statement ∈ block.statements, ∀ jump, escapes jump statement = false := by
  constructor
  · exact fun contained block member statement inside => (contained block member statement inside).own
  · intro own block member statement inside
    refine ⟨own block member statement inside, allReached_of_free ?_⟩
    exact labels_eq_nil_iff_forall.1 (flattened.free block member) statement inside

/-- When every jump of the body belongs to something, every jump of the blocks does too, exactly
when no loop that contains labels has a jump of its own in a switch or in an inner loop. -/
theorem contained_of_flatten (success : flatten options body = .ok blocks)
    (contained : ∀ statement ∈ body, ∀ jump, escapes jump statement = false) :
    (∀ block ∈ blocks, ∀ statement ∈ block.statements, ∀ jump, escapes jump statement = false) ↔
      ∀ loop ∈ nodes body, ∀ head loopBody, loop.containsLabels = true →
        loopOf loop = some (head, loopBody) → Reached loopBody := by
  have flattened := flattened_of_flatten success
  rw [← flattened.contained_blocks, flattened.contained_iff]
  constructor
  · intro all loop member
    obtain ⟨statement, inside, below⟩ := mem_nodes.1 member
    exact (all statement inside).loops loop below
  · intro reached statement inside
    refine ⟨contained statement inside, fun loop below => ?_⟩
    exact reached loop (mem_nodes.2 ⟨statement, inside, below⟩)

theorem contained_of_flatten_redirected :
    flatten .standard [.whileLoop (.identifier "more") [.labeled "L" (.continueJump none)]] =
        .ok [⟨"$sm0", [.branch (.unary "!" (.identifier "more")) [.goto "$exit"] none,
          .goto "L"]⟩, ⟨"L", [.goto "$sm0"]⟩] ∧
      ∀ block ∈ ([⟨"$sm0", [.branch (.unary "!" (.identifier "more")) [.goto "$exit"] none,
          .goto "L"]⟩, ⟨"L", [.goto "$sm0"]⟩] : List LabeledBlock),
        ∀ statement ∈ block.statements, ∀ jump, escapes jump statement = false := by
  have success : flatten .standard
      [.whileLoop (.identifier "more") [.labeled "L" (.continueJump none)]] =
        .ok [⟨"$sm0", [.branch (.unary "!" (.identifier "more")) [.goto "$exit"] none,
          .goto "L"]⟩, ⟨"L", [.goto "$sm0"]⟩] := by cbv
  refine ⟨success, ?_⟩
  apply (contained_of_flatten success (List.forall_mem_singleton.2 fun jump => escapes_eq ..)).2
  intro loop member head loopBody labeled isLoop statement inBody jump
  simp only [nodes_cons, nodes_nil, Stmt.nodes_children, Stmt.children, List.append_nil,
    List.mem_cons, List.not_mem_nil, or_false] at member
  rcases member with rfl | rfl | rfl
  · cases isLoop
    cases List.mem_singleton.1 inBody
    simp [hidden_eq, bindsJumps, Stmt.kind, Stmt.children]
  · cases isLoop
  · cases isLoop

/-- A `continue` in a switch belongs to the loop around the switch, and nothing redirects it. -/
theorem not_contained_of_flatten :
    ¬ ∀ options body blocks, flatten options body = .ok blocks →
      (∀ statement ∈ body, ∀ jump, escapes jump statement = false) →
        ∀ block ∈ blocks, ∀ statement ∈ block.statements, ∀ jump,
          escapes jump statement = false := by
  intro all
  have escaped : escapes .continueJump
      (.switch (.identifier "kind") [.clause none [.continueJump none]]) = false :=
    all .standard
      [.whileLoop (.identifier "more")
        [.switch (.identifier "kind") [.clause none [.continueJump none]], .labeled "L" .empty]]
      [⟨"$sm0", [.branch (.unary "!" (.identifier "more")) [.goto "$exit"] none,
        .switch (.identifier "kind") [.clause none [.continueJump none]], .goto "L"]⟩,
        ⟨"L", [.empty, .goto "$sm0"]⟩]
      (by cbv) (List.forall_mem_singleton.2 fun jump => escapes_eq ..)
      _ (List.mem_cons_self ..) _ (List.mem_cons_of_mem _ (List.mem_cons_self ..)) _
  have found : escapes .continueJump
      (.switch (.identifier "kind") [.clause none [.continueJump none]]) = true := by cbv
  rw [found] at escaped
  cases escaped

end Unnest.Flatten
