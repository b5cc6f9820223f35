import Unnest.Proofs.Flatten.Defers

/-! Which bodies flatten. Labels in a switch or in the initializer of a `for` loop are always
found, and so is a jump that names a label, unless it stands in the initializer of a `for`
loop that contains labels: that initializer is put into a block as it is. -/

namespace Unnest.Flatten
open Script

/-- The initializer of a `for` loop that contains labels. -/
def labeledForInit : Stmt → Option Stmt
  | .forLoop init condition iterator body =>
    if (Stmt.forLoop init condition iterator body).containsLabels then some init else none
  | _ => none

/-- Some `for` loop that contains labels has a jump with a label in its initializer. -/
def NamedInInit (found : List Stmt) : Prop :=
  ∃ node ∈ found, ∃ init, labeledForInit node = some init ∧ init.namedJump ≠ none

/-- No labels where labels cannot be flattened, and no named jump that a check would see. -/
structure Supported (statement : Stmt) : Prop where
  switches : ∀ discriminant cases, .switch discriminant cases ∈ statement.nodes →
    (Stmt.switch discriminant cases).containsLabels = false
  inits : ∀ init condition iterator body, .forLoop init condition iterator body ∈ statement.nodes →
    init.containsLabels = false
  jumps : ∀ node ∈ statement.nodes, node.ownNamedJump ≠ none → NamedInInit statement.nodes

theorem NamedInInit.mono {small big : List Stmt} (sub : small ⊆ big)
    (named : NamedInInit small) : NamedInInit big := by
  obtain ⟨node, member, init, loop, jump⟩ := named
  exact ⟨node, sub member, init, loop, jump⟩

theorem nodes_subset_of_child {child parent : Stmt} (below : child ∈ parent.children) :
    child.nodes ⊆ parent.nodes :=
  fun _ member => Stmt.mem_nodes_of_child below member

theorem init_free_of_free {init : Stmt} {condition iterator : Option Expr} {body : List Stmt}
    (free : (Stmt.forLoop init condition iterator body).containsLabels = false) :
    init.containsLabels = false :=
  unlabeled_of_free free
    (nodes_subset_of_child (List.mem_cons_self ..) (Stmt.mem_nodes_self init))

/-- A statement that is only taken apart is supported if its children are. -/
theorem supported_of_children {statement : Stmt} (plain : statement.ownNamedJump = none)
    (opened : (statement.kind != .switch && statement.kind != .forLoop) = true)
    (children : ∀ child ∈ statement.children, Supported child) : Supported statement := by
  constructor
  · intro discriminant cases member
    rcases Stmt.mem_nodes_iff.1 member with rfl | ⟨child, below, deeper⟩
    · cases opened
    · exact (children child below).switches _ _ deeper
  · intro init condition iterator body member
    rcases Stmt.mem_nodes_iff.1 member with rfl | ⟨child, below, deeper⟩
    · cases opened
    · exact (children child below).inits _ _ _ _ deeper
  · intro node member named
    rcases Stmt.mem_nodes_iff.1 member with rfl | ⟨child, below, deeper⟩
    · exact absurd plain named
    · exact ((children child below).jumps node deeper named).mono (nodes_subset_of_child below)

/-- A statement without labels is checked as a whole. -/
theorem supported_of_free {statement : Stmt} (free : statement.containsLabels = false)
    (plain : statement.namedJump = none) : Supported statement where
  switches _ _ member := unlabeled_of_free free member
  inits _ _ _ _ member := init_free_of_free (unlabeled_of_free free member)
  jumps node member named := absurd (Stmt.namedJump_eq_none_iff.1 plain node member) named

/-- A loop that is taken apart is supported if its body is: its initializer is not checked
for jumps, but it is known to hold no labels. -/
theorem supported_loop {loop : Stmt} {head : LoopHead} {body : List Stmt}
    (labeled : loop.containsLabels = true) (isLoop : loopOf loop = some (head, body))
    (plainInit : head.labeledInit = none) (inner : ∀ statement ∈ body, Supported statement) :
    Supported loop := by
  cases loop <;> simp only [loopOf, reduceCtorEq, Option.some.injEq, Prod.mk.injEq] at isLoop <;>
    obtain ⟨rfl, rfl⟩ := isLoop
  · exact supported_of_children rfl rfl inner
  · exact supported_of_children rfl rfl inner
  · next init condition iterator body =>
    have free : init.containsLabels = false := by
      cases inInit : init.containsLabels with
      | false => rfl
      | true => simp [LoopHead.labeledInit, inInit] at plainInit
    have cases {node : Stmt} (member : node ∈ (Stmt.forLoop init condition iterator body).nodes) :
        node = .forLoop init condition iterator body ∨ node ∈ init.nodes ∨
          ∃ statement ∈ body, node ∈ statement.nodes := by
      rw [Stmt.mem_nodes_iff, Stmt.children] at member
      simpa using member
    constructor
    · intro discriminant others member
      rcases cases member with same | inInit | ⟨statement, inBody, deeper⟩
      · cases same
      · exact unlabeled_of_free free inInit
      · exact (inner statement inBody).switches _ _ deeper
    · intro other condition iterator others member
      rcases cases member with same | inInit | ⟨statement, inBody, deeper⟩
      · cases same
        exact free
      · exact init_free_of_free (unlabeled_of_free free inInit)
      · exact (inner statement inBody).inits _ _ _ _ deeper
    · intro node member named
      rcases cases member with same | inInit | ⟨statement, inBody, deeper⟩
      · subst same
        exact absurd rfl named
      · refine ⟨.forLoop init condition iterator body, Stmt.mem_nodes_self _, init, if_pos labeled, ?_⟩
        exact fun none => named (Stmt.namedJump_eq_none_iff.1 none node inInit)
      · exact ((inner statement inBody).jumps node deeper named).mono
          (nodes_subset_of_child (List.mem_cons_of_mem _ inBody))

/-- What redirecting leaves alone is found in the redirected statement and nowhere else. -/
theorem supported_of_redirectStmt {targets : LoopTargets} {before after : Stmt}
    (success : redirectStmt targets before = .ok after) (supported : Supported after) :
    Supported before := by
  constructor
  · intro discriminant cases member
    exact supported.switches _ _ ((mem_nodes_redirectStmt success (.inl rfl)).2 member)
  · intro init condition iterator body member
    exact supported.inits _ _ _ _ ((mem_nodes_redirectStmt success (.inl rfl)).2 member)
  · intro node member named
    have inside := (mem_nodes_redirectStmt success (.inr named)).2 member
    obtain ⟨loop, inside, init, isLoop, jump⟩ := supported.jumps node inside named
    have binds : bindsJumps loop.kind = true := by
      cases loop <;> first | rfl | cases isLoop
    exact ⟨loop, (mem_nodes_redirectStmt success (.inl binds)).1 inside, init, isLoop, jump⟩

theorem supported_of_redirectedAll {targets : LoopTargets} {before after : List Stmt}
    (all : RedirectedAll targets before after) (supported : ∀ statement ∈ after, Supported statement) :
    ∀ statement ∈ before, Supported statement := by
  induction all with
  | nil => nofun
  | cons here _ ih =>
    rw [List.forall_mem_cons] at supported ⊢
    exact ⟨supported_of_redirectStmt here supported.1, ih supported.2⟩

section Defers

variable {stem fallThrough : String} {ledger later : Ledger}

/-- Behind its first label, code defers what is left of it. -/
theorem Defers.passed {code rest : Continuation Stmt} {frame : Frame Stmt} {current inner : Stmt}
    {isBound : String → Bool}
    (defers : Defers Continuation.remaining Supported (inner :: (rest.pushFollowing frame).remaining)
      ledger later)
    (met : code.At frame rest current) (passed : Passed isBound current inner) :
    Defers Continuation.remaining Supported code.remaining ledger later := by
  rw [met.remaining]
  cases passed with
  | plain own => exact defers
  | below bound =>
    apply defers.imp
    simp only [List.forall_mem_cons]
    refine And.imp_left fun here => ?_
    exact supported_of_children rfl rfl (List.forall_mem_singleton.2 here)

/-- What placing code does not check itself, it leaves to the blocks it schedules. -/
theorem Placed.defers {code : Continuation Stmt} {spot : Spot} {out : List Stmt}
    (placed : Placed stem ledger code fallThrough spot out later) :
    Defers Continuation.remaining Supported code.remaining ledger later := by
  induction placed with
  | ends nothing =>
    rw [Continuation.remaining_of_pop_none nothing]
    exact .none
  | opens met owned arrival sent => exact .ofSend sent
  | unwraps met owned arrival placed ih =>
    apply Defers.passed _ met (passed_of_unwraps arrival)
    simpa [Frame.remaining] using ih
  | copies met owned arrival free plain placed ih =>
    apply Defers.passed _ met (runs_inv arrival).2
    exact ih.imp fun others => List.forall_mem_cons.2 ⟨supported_of_free free plain, others⟩
  | splices met owned arrival labeled placed ih =>
    apply Defers.passed _ met (runs_inv arrival).2
    rw [Continuation.remaining_push] at ih
    apply ih.imp
    rw [List.forall_mem_append, List.forall_mem_cons]
    exact And.imp_left fun inBody => supported_of_children rfl rfl inBody
  | branches met owned arrival labeled chosen thenPlaced elsePlaced settles placed ihThen ihElse ih =>
    apply Defers.passed _ met (runs_inv arrival).2
    have whole := ihThen.trans (ihElse.trans (Defers.settle settles ih))
    apply (whole.minted (chosen_of_successor chosen).sent).imp
    simp only [Continuation.remaining_ofBlock, List.forall_mem_append, List.forall_mem_cons]
    rintro ⟨inThen, inElse, others⟩
    refine ⟨supported_of_children rfl rfl ?_, others⟩
    exact List.forall_mem_append.2 ⟨inThen, inElse⟩
  | @inlines ledger named between later code rest frame current loop head body inner flat loopName
      fallThrough spot plan met owned arrival labeled isLoop plainInit start ready planned redirects
      placed kept ih =>
    apply Defers.passed _ met (runs_inv arrival).2
    have resumed : Defers Continuation.remaining Supported (rest.pushFollowing frame).remaining
        between later := by
      rcases layout_resumes planned with nothing | ⟨promise, member, resumes⟩
      · rw [nothing]
        exact ⟨_, by rw [Ledger.sendAll_inv kept], fun _ => List.forall_mem_nil _⟩
      · have deferred : Defers Continuation.remaining Supported
            promise.block.continuation.remaining between later :=
          .ofSendAll kept (List.mem_map.2 ⟨promise, member, rfl⟩)
        rcases resumes with same | ⟨condition, same⟩
        · rwa [same] at deferred
        · rw [same, Continuation.remaining_push] at deferred
          exact deferred.imp fun all => (List.forall_mem_append.1 all).2
    apply ((ih.trans resumed).minted (layout_promising planned).sent).imp
    simp only [Continuation.remaining_ofBlock, List.forall_mem_append, List.forall_mem_cons]
    refine And.imp_left fun innerSupported => ?_
    exact supported_loop labeled isLoop plainInit
      (supported_of_redirectedAll (redirectedAll_of_redirect redirects) innerSupported)
  | splits met owned arrival labeled isLoop plainInit unready sent =>
    have deferred : Defers Continuation.remaining Supported _ _ _ := .ofSend sent
    rw [At.remaining_resumption met] at deferred
    exact deferred.minted rfl

end Defers

variable {options : Options} {body : List Stmt} {blocks : List LabeledBlock}

theorem Flattened.supported (flattened : Flattened options body blocks) :
    ∀ statement ∈ body, Supported statement := by
  cases flattened with
  | nothing accepted => nofun
  | something accepted made =>
    have all := made.defers Continuation.remaining Supported
      (fun placed _ => placed.defers) rfl
    simpa [entryLedger] using all

end Unnest.Flatten
