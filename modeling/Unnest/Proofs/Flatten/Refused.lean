import Unnest.Proofs.Flatten.Minting

/-! What the engine cannot put into a block, as a relation like the one for what it can. There
is one rule for each check that fails, and one for each part of the code in which a check can
fail once the parts before it have been placed. -/

namespace Unnest.Flatten
open Script

/-- Placing the code fails with the fault, after the first ledger has become the last. -/
inductive Refused (stem : String) :
    Ledger → Continuation Stmt → String → Spot → FlattenError → Ledger → Prop where
  | unwraps {ledger later : Ledger} {code rest : Continuation Stmt} {frame : Frame Stmt}
      {current inner : Stmt} {fallThrough : String} {spot : Spot} {fault : FlattenError}
      (met : code.At frame rest current)
      (arrival : arrive ledger.isBound current = .unwraps inner)
      (refused : Refused stem ledger ((rest.pushFollowing frame).push ⟨[inner], 0, frame.afterInit⟩)
        fallThrough spot fault later) :
      Refused stem ledger code fallThrough spot fault later
  /-- A statement without labels has a jump that names one. -/
  | named {ledger : Ledger} {code rest : Continuation Stmt} {frame : Frame Stmt}
      {current statement : Stmt} {fallThrough label : String} {keyword : Kind} {spot : Spot}
      (met : code.At frame rest current) (arrival : arrive ledger.isBound current = .runs statement)
      (free : statement.containsLabels = false)
      (jumps : statement.namedJump = some (keyword, label)) :
      Refused stem ledger code fallThrough spot (.namedJump keyword label) ledger
  | copies {ledger later : Ledger} {code rest : Continuation Stmt} {frame : Frame Stmt}
      {current statement : Stmt} {fallThrough : String} {spot : Spot} {fault : FlattenError}
      (met : code.At frame rest current) (arrival : arrive ledger.isBound current = .runs statement)
      (free : statement.containsLabels = false)
      (refused : Refused stem ledger (rest.pushFollowing frame) fallThrough (.after [statement]) fault
        later) :
      Refused stem ledger code fallThrough spot fault later
  | splices {ledger later : Ledger} {code rest : Continuation Stmt} {frame : Frame Stmt}
      {current : Stmt} {body : List Stmt} {fallThrough : String} {spot : Spot} {fault : FlattenError}
      (met : code.At frame rest current)
      (arrival : arrive ledger.isBound current = .runs (.block body))
      (refused : Refused stem ledger ((rest.pushFollowing frame).push ⟨body, 0, false⟩) fallThrough
        spot fault later) :
      Refused stem ledger code fallThrough spot fault later
  | inThen {ledger named later : Ledger} {code rest : Continuation Stmt} {frame : Frame Stmt}
      {current : Stmt} {test : Expr} {thenBody : List Stmt} {elseBody : Option (List Stmt)}
      {fallThrough : String} {spot : Spot} {after : Successor} {fault : FlattenError}
      (met : code.At frame rest current)
      (arrival : arrive ledger.isBound current = .runs (.branch test thenBody elseBody))
      (labeled : (Stmt.branch test thenBody elseBody).containsLabels = true)
      (chosen : ledger.successor stem (rest.pushFollowing frame).remaining fallThrough =
        (after, named))
      (refused : Refused stem named (.ofBlock thenBody) after.name .inside fault later) :
      Refused stem ledger code fallThrough spot fault later
  | inElse {ledger named between later : Ledger} {code rest : Continuation Stmt} {frame : Frame Stmt}
      {current : Stmt} {test : Expr} {thenBody elseBody thenFlat : List Stmt}
      {fallThrough : String} {spot : Spot} {after : Successor} {fault : FlattenError}
      (met : code.At frame rest current)
      (arrival : arrive ledger.isBound current = .runs (.branch test thenBody (some elseBody)))
      (labeled : (Stmt.branch test thenBody (some elseBody)).containsLabels = true)
      (chosen : ledger.successor stem (rest.pushFollowing frame).remaining fallThrough =
        (after, named))
      (thenPlaced : Placed stem named (.ofBlock thenBody) after.name .inside thenFlat between)
      (refused : Refused stem between (.ofBlock elseBody) after.name .inside fault later) :
      Refused stem ledger code fallThrough spot fault later
  /-- The code behind a branch is refused where it is placed on the spot. -/
  | behind {ledger named between further later : Ledger} {code rest : Continuation Stmt}
      {frame : Frame Stmt} {current : Stmt} {test : Expr} {thenBody thenFlat elseFlat : List Stmt}
      {elseBody : Option (List Stmt)} {fallThrough : String} {spot behind : Spot}
      {after : Successor} {fault : FlattenError} (met : code.At frame rest current)
      (arrival : arrive ledger.isBound current = .runs (.branch test thenBody elseBody))
      (labeled : (Stmt.branch test thenBody elseBody).containsLabels = true)
      (chosen : ledger.successor stem (rest.pushFollowing frame).remaining fallThrough =
        (after, named))
      (thenPlaced : Placed stem named (.ofBlock thenBody) after.name .inside thenFlat between)
      (elsePlaced : Placed stem between (.ofBlock (elseBody.getD [])) after.name .inside elseFlat
        further)
      (refused : Refused stem further (rest.pushFollowing frame) fallThrough behind fault later) :
      Refused stem ledger code fallThrough spot fault later
  | switch {ledger : Ledger} {code rest : Continuation Stmt} {frame : Frame Stmt}
      {current : Stmt} {discriminant : Expr} {cases : List Case} {fallThrough : String} {spot : Spot}
      (met : code.At frame rest current)
      (arrival : arrive ledger.isBound current = .runs (.switch discriminant cases))
      (labeled : (Stmt.switch discriminant cases).containsLabels = true) :
      Refused stem ledger code fallThrough spot
        (.labelInSwitch ((Stmt.switch discriminant cases).firstLabel.getD "")) ledger
  | init {ledger : Ledger} {code rest : Continuation Stmt} {frame : Frame Stmt}
      {current loop : Stmt} {head : LoopHead} {body : List Stmt} {fallThrough : String} {spot : Spot}
      {kind : Kind} (met : code.At frame rest current)
      (arrival : arrive ledger.isBound current = .runs loop)
      (labeled : loop.containsLabels = true) (isLoop : loopOf loop = some (head, body))
      (labeledInit : head.labeledInit = some kind) :
      Refused stem ledger code fallThrough spot (.unhandledLabels kind) ledger
  /-- The body of a loop has a jump of its own that names a label. -/
  | jump {ledger named : Ledger} {code rest : Continuation Stmt} {frame : Frame Stmt}
      {current loop : Stmt} {head : LoopHead} {body : List Stmt} {loopName fallThrough : String}
      {spot : Spot} {plan : LoopPlan} {fault : FlattenError} (met : code.At frame rest current)
      (arrival : arrive ledger.isBound current = .runs loop)
      (labeled : loop.containsLabels = true) (isLoop : loopOf loop = some (head, body))
      (planned : layout stem head body loopName (rest.pushFollowing frame) fallThrough ledger =
        (plan, named))
      (redirects : redirect plan.targets body = .error fault) :
      Refused stem ledger code fallThrough spot fault (named.inline loopName)
  | inBody {ledger named later : Ledger} {code rest : Continuation Stmt} {frame : Frame Stmt}
      {current loop : Stmt} {head : LoopHead} {body inner : List Stmt}
      {loopName fallThrough : String} {spot : Spot} {plan : LoopPlan} {fault : FlattenError}
      (met : code.At frame rest current) (arrival : arrive ledger.isBound current = .runs loop)
      (labeled : loop.containsLabels = true) (isLoop : loopOf loop = some (head, body))
      (planned : layout stem head body loopName (rest.pushFollowing frame) fallThrough ledger =
        (plan, named))
      (redirects : redirect plan.targets body = .ok inner)
      (refused : Refused stem (named.inline loopName) (.ofBlock inner) plan.targets.continueTo .inside
        fault later) :
      Refused stem ledger code fallThrough spot fault later

/-- The statement is what the fault says it has found. -/
def Blames : FlattenError → Stmt → Prop
  | .labelInSwitch label, .switch discriminant cases =>
    (Stmt.switch discriminant cases).labels.head? = some label
  | .unhandledLabels kind, .forLoop init _ _ _ => init.kind = kind ∧ init.labels ≠ []
  | .namedJump keyword label, statement => statement.ownNamedJump = some (keyword, label)
  | _, _ => False

section Blames

variable {fault : FlattenError} {node statement : Stmt} {targets : LoopTargets}

/-- What a fault blames is left alone when jumps are redirected. -/
theorem Blames.keeps (blames : Blames fault node) :
    bindsJumps node.kind = true ∨ node.ownNamedJump ≠ none := by
  cases fault with
  | namedJump keyword label =>
    right
    rw [show node.ownNamedJump = _ from blames]
    exact Option.some_ne_none _
  | labelInSwitch label =>
    cases node with
    | switch => exact .inl rfl
    | _ => exact blames.elim
  | unhandledLabels kind =>
    cases node with
    | forLoop => exact .inl rfl
    | _ => exact blames.elim
  | _ => exact blames.elim

theorem blames_of_namedJump {keyword : Kind} {label : String}
    (jumps : statement.namedJump = some (keyword, label)) :
    ∃ node ∈ statement.nodes, Blames (.namedJump keyword label) node := by
  induction statement using Stmt.childInduction with
  | step parent ih =>
    rw [Stmt.namedJump_eq] at jumps
    cases own : parent.ownNamedJump with
    | some jump =>
      simp only [own] at jumps
      cases jumps
      exact ⟨parent, Stmt.mem_nodes_self parent, own⟩
    | none =>
      simp only [own] at jumps
      obtain ⟨child, below, found⟩ := List.exists_of_findSome?_eq_some jumps
      obtain ⟨node, member, blames⟩ := ih child below found
      exact ⟨node, Stmt.mem_nodes_of_child below member, blames⟩

/-- A body is refused on account of one of its statements. -/
theorem redirect_error {body : List Stmt} (refused : redirect targets body = .error fault) :
    ∃ statement ∈ body, redirectStmt targets statement = .error fault := by
  induction body with
  | nil => cases refused
  | cons first rest ih =>
    rcases bind_eq_error refused with here | ⟨_, _, others⟩
    · exact ⟨first, List.mem_cons_self .., here⟩
    · rcases bind_eq_error others with later | ⟨_, _, result⟩
      · obtain ⟨statement, member, here⟩ := ih later
        exact ⟨statement, List.mem_cons_of_mem _ member, here⟩
      · cases result

/-- Redirecting fails at a jump that names a label only. -/
theorem blames_of_redirectStmt (refused : redirectStmt targets statement = .error fault) :
    ∃ node ∈ statement.nodes, Blames fault node := by
  induction statement using Stmt.childInduction with
  | step parent ih =>
    have inChildren {body : List Stmt} (within : body ⊆ parent.children)
        (refused : redirect targets body = .error fault) :
        ∃ node ∈ parent.nodes, Blames fault node := by
      obtain ⟨child, member, here⟩ := redirect_error refused
      obtain ⟨node, below, blames⟩ := ih child (within member) here
      exact ⟨node, Stmt.mem_nodes_of_child (within member) below, blames⟩
    cases parent with
    | breakJump label | continueJump label =>
      cases label with
      | some label =>
        cases refused
        exact ⟨_, Stmt.mem_nodes_self _, rfl⟩
      | none =>
        unfold redirectStmt at refused
        first
        | cases refused
        | split at refused <;> cases refused
    | block body =>
      rcases bind_eq_error refused with inBody | ⟨_, _, result⟩
      · exact inChildren (List.Subset.refl _) inBody
      · cases result
    | branch test thenBody elseBody =>
      have inThen := List.subset_append_left thenBody (elseBody.getD [])
      cases elseBody with
      | none =>
        rcases bind_eq_error refused with here | ⟨_, _, result⟩
        · exact inChildren inThen here
        · cases result
      | some elseBody =>
        rcases bind_eq_error refused with here | ⟨_, _, others⟩
        · exact inChildren inThen here
        · rcases bind_eq_error others with here | ⟨_, _, result⟩
          · exact inChildren (List.subset_append_right _ _) here
          · cases result
    | labeled label body =>
      rcases bind_eq_error refused with here | ⟨_, _, result⟩
      · obtain ⟨node, below, blames⟩ := ih body (List.mem_singleton_self _) here
        exact ⟨node, Stmt.mem_nodes_of_child (List.mem_singleton_self _) below, blames⟩
      · cases result
    | _ => cases refused

/-- The fault is to be found in the statements. -/
def Blamed (fault : FlattenError) (statements : List Stmt) : Prop :=
  ∃ node ∈ nodes statements, Blames fault node

theorem Blamed.mono {few many : List Stmt} (blamed : Blamed fault few)
    (within : nodes few ⊆ nodes many) : Blamed fault many := by
  obtain ⟨node, member, blames⟩ := blamed
  exact ⟨node, within member, blames⟩

theorem blamed_of_node (blames : ∃ node ∈ statement.nodes, Blames fault node) :
    Blamed fault [statement] := by
  rwa [Blamed, nodes_cons, nodes_nil, List.append_nil]

/-- What is blamed in a redirected body was there before. -/
theorem Blamed.redirect {body inner : List Stmt} (blamed : Blamed fault inner)
    (redirects : redirect targets body = .ok inner) : Blamed fault body := by
  obtain ⟨node, member, blames⟩ := blamed
  exact ⟨node, mem_nodes_of_redirect redirects blames.keeps member, blames⟩

end Blames

section Refused

variable {stem fallThrough : String} {ledger later : Ledger} {code rest : Continuation Stmt}
  {frame : Frame Stmt} {current inner : Stmt} {spot : Spot} {fault : FlattenError}

theorem Passed.nodes_subset {isBound : String → Bool} (passed : Passed isBound current inner) :
    inner.nodes ⊆ current.nodes := by
  cases passed with
  | plain own => exact List.Subset.refl _
  | below bound => exact fun _ member => Stmt.mem_nodes_of_child (List.mem_singleton_self _) member

/-- What is found in the statement that runs, or behind it, is found in the code. -/
theorem nodes_ahead {isBound : String → Bool} (met : code.At frame rest current)
    (passed : Passed isBound current inner) :
    nodes (inner :: (rest.pushFollowing frame).remaining) ⊆ nodes code.remaining := by
  rw [met.remaining, nodes_cons, nodes_cons]
  exact List.append_subset.2 ⟨List.Subset.trans passed.nodes_subset (List.subset_append_left _ _),
    List.subset_append_right _ _⟩

theorem nodes_mono {few many : List Stmt} (within : few ⊆ many) : nodes few ⊆ nodes many := by
  intro node member
  obtain ⟨statement, inside, below⟩ := mem_nodes.1 member
  exact mem_nodes.2 ⟨statement, within inside, below⟩

theorem nodes_following (met : code.At frame rest current) :
    nodes (rest.pushFollowing frame).remaining ⊆ nodes code.remaining := by
  rw [met.remaining]
  exact nodes_mono (List.subset_cons_self _ _)

theorem node_runs {isBound : String → Bool} (met : code.At frame rest current)
    (arrival : arrive isBound current = .runs inner) : inner ∈ nodes code.remaining :=
  nodes_ahead met (runs_inv arrival).2 (List.mem_append_left _ (Stmt.mem_nodes_self inner))

theorem nodes_below {isBound : String → Bool} {body : List Stmt} (met : code.At frame rest current)
    (arrival : arrive isBound current = .runs inner) (within : body ⊆ inner.children) :
    nodes body ⊆ nodes code.remaining := by
  apply List.Subset.trans _ (nodes_ahead met (runs_inv arrival).2)
  rw [nodes_cons, Stmt.nodes_children]
  apply List.Subset.trans (nodes_mono within)
  exact List.Subset.trans (List.subset_cons_self _ _) (List.subset_append_left _ _)

/-- Every fault is found in the code. -/
theorem Refused.blamed (refused : Refused stem ledger code fallThrough spot fault later) :
    Blamed fault code.remaining := by
  induction refused with
  | unwraps met arrival refused ih =>
    apply ih.mono
    simpa [Frame.remaining] using nodes_ahead met (passed_of_unwraps arrival)
  | @named _ _ _ _ _ statement _ _ _ _ met arrival free jumps =>
    apply (blamed_of_node (blames_of_namedJump jumps)).mono
    apply List.Subset.trans (nodes_mono _) (nodes_ahead met (runs_inv arrival).2)
    simp
  | copies met arrival free refused ih => exact ih.mono (nodes_following met)
  | splices met arrival refused ih =>
    apply ih.mono
    rw [Continuation.remaining_push_block, nodes_append]
    exact List.append_subset.2
      ⟨nodes_below met arrival (List.Subset.refl _), nodes_following met⟩
  | inThen met arrival labeled chosen refused ih =>
    rw [Continuation.remaining_ofBlock] at ih
    exact ih.mono (nodes_below met arrival (List.subset_append_left _ _))
  | inElse met arrival labeled chosen thenPlaced refused ih =>
    rw [Continuation.remaining_ofBlock] at ih
    exact ih.mono (nodes_below met arrival (List.subset_append_right _ _))
  | behind met arrival labeled chosen thenPlaced elsePlaced refused ih =>
    exact ih.mono (nodes_following met)
  | switch met arrival labeled =>
    refine ⟨_, node_runs met arrival, ?_⟩
    rw [Blames, Stmt.firstLabel_eq_head]
    obtain ⟨label, member⟩ := Stmt.containsLabels_iff.1 labeled
    obtain ⟨first, others, same⟩ := List.exists_cons_of_ne_nil (List.ne_nil_of_mem member)
    rw [same]
    rfl
  | @init _ _ _ _ _ loop head _ _ _ _ met arrival labeled isLoop labeledInit =>
    refine ⟨loop, node_runs met arrival, ?_⟩
    cases loop <;> simp only [loopOf, reduceCtorEq, Option.some.injEq, Prod.mk.injEq] at isLoop <;>
      obtain ⟨rfl, rfl⟩ := isLoop
    · cases labeledInit
    · cases labeledInit
    · next init condition iterator body =>
      rw [LoopHead.labeledInit] at labeledInit
      split at labeledInit
      next inInit =>
        cases labeledInit
        exact ⟨rfl, fun free => by rw [Stmt.labels_eq_nil_iff.1 free] at inInit; cases inInit⟩
      next => cases labeledInit
  | jump met arrival labeled isLoop planned redirects =>
    obtain ⟨statement, member, refused⟩ := redirect_error redirects
    obtain ⟨node, below, blames⟩ := blames_of_redirectStmt refused
    have inBody : Blamed _ _ := ⟨node, mem_nodes.2 ⟨statement, member, below⟩, blames⟩
    exact inBody.mono (nodes_below met arrival (body_subset_children isLoop))
  | inBody met arrival labeled isLoop planned redirects refused ih =>
    rw [Continuation.remaining_ofBlock] at ih
    exact (ih.redirect redirects).mono (nodes_below met arrival (body_subset_children isLoop))

/-- The names made up until the fault are within what the code can make up, also when the block
has a name to its credit. -/
theorem Refused.minted_le (refused : Refused stem ledger code fallThrough spot fault later) :
    later.minted + (if spot.reentry.isSome then credit ledger code else 0) ≤
      ledger.minted + mints code.remaining := by
  induction refused with
  | unwraps met arrival refused ih =>
    rw [drawn_eq_zero _ (credit_unwraps met arrival), ← mints_unwraps met arrival]
    exact Nat.le_of_add_right_le ih
  | named met arrival free jumps =>
    rw [drawn_eq_zero _ (credit_eq_zero met arrival (.inl free))]
    exact Nat.le_add_right _ _
  | copies met arrival free refused ih =>
    rw [drawn_eq_zero _ (credit_eq_zero met arrival (.inl free)), mints_runs met arrival]
    omega
  | splices met arrival refused ih =>
    rw [drawn_eq_zero _ (credit_eq_zero met arrival (.inr rfl)), ← mints_splices met arrival]
    exact Nat.le_of_add_right_le ih
  | inThen met arrival labeled chosen refused ih =>
    have made := (chosen_of_successor chosen).cost
    rw [drawn_eq_zero _ (credit_eq_zero met arrival (.inr rfl)), mints_runs met arrival,
      mints_branch labeled]
    rw [Continuation.remaining_ofBlock] at ih
    omega
  | inElse met arrival labeled chosen thenPlaced refused ih =>
    have made := (chosen_of_successor chosen).cost
    have inThen := thenPlaced.minted_le
    rw [drawn_eq_zero _ (credit_eq_zero met arrival (.inr rfl)), mints_runs met arrival,
      mints_branch labeled, Option.getD_some]
    rw [Continuation.remaining_ofBlock] at ih inThen
    omega
  | behind met arrival labeled chosen thenPlaced elsePlaced refused ih =>
    have made := (chosen_of_successor chosen).cost
    have inThen := thenPlaced.minted_le
    have inElse := elsePlaced.minted_le
    rw [drawn_eq_zero _ (credit_eq_zero met arrival (.inr rfl)), mints_runs met arrival,
      mints_branch labeled]
    rw [Continuation.remaining_ofBlock] at inThen inElse
    omega
  | switch met arrival labeled =>
    rw [drawn_eq_zero _ (credit_eq_zero met arrival (.inr rfl))]
    exact Nat.le_add_right _ _
  | @init ledger code _ _ _ _ head _ _ spot _ met arrival labeled isLoop labeledInit =>
    have drawn := drawn_le_one spot.reentry ledger code
    have positive := head.one_le_cost
    rw [mints_runs met arrival, mints_loop labeled isLoop]
    omega
  | @jump ledger named code _ _ _ _ _ _ _ _ spot _ _ met arrival labeled isLoop planned redirects =>
    have drawn := drawn_le_one spot.reentry ledger code
    have made := layout_cost planned
    rw [mints_runs met arrival, mints_loop labeled isLoop]
    simp only [Ledger.inline]
    omega
  | @inBody ledger named later code _ _ _ _ _ _ _ _ _ spot _ _ met arrival labeled isLoop planned
      redirects refused ih =>
    have drawn := drawn_le_one spot.reentry ledger code
    have made := layout_cost planned
    have inBody := mints_body_le isLoop
    rw [mints_runs met arrival, mints_loop labeled isLoop]
    rw [Continuation.remaining_ofBlock, mints_redirect redirects] at ih
    simp only [Ledger.inline] at ih
    omega

end Refused

end Unnest.Flatten
