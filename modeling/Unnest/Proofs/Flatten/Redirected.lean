import Unnest.Flatten.LoopJumps
import Unnest.Proofs.Script.Nodes

/-! What redirecting the jumps of a loop does to its body. The relation has one rule for
each way in which a statement can come out, and the tree keeps its labels. -/

namespace Unnest.Flatten
open Script

/-- The statements of one body come out of redirecting those of the other, one by one. -/
def RedirectedAll (targets : LoopTargets) : List Stmt → List Stmt → Prop :=
  List.Forall₂ fun before after => redirectStmt targets before = .ok after

theorem redirectedAll_of_redirect {targets : LoopTargets} {body inner : List Stmt}
    (redirects : redirect targets body = .ok inner) : RedirectedAll targets body inner := by
  induction body generalizing inner with
  | nil =>
    cases redirects
    exact .nil
  | cons first rest ih =>
    obtain ⟨first', here, others⟩ := bind_eq_ok redirects
    obtain ⟨rest', later, result⟩ := bind_eq_ok others
    cases result
    exact .cons here (ih later)

/-- A body without an alternative stays one. -/
inductive RedirectedElse (targets : LoopTargets) :
    Option (List Stmt) → Option (List Stmt) → Prop where
  | none : RedirectedElse targets none none
  | some {before after : List Stmt} (all : RedirectedAll targets before after) :
      RedirectedElse targets (some before) (some after)

/-- How a statement of the body of a loop comes out. -/
inductive Redirected (targets : LoopTargets) : Stmt → Stmt → Prop where
  /-- A statement with jumps of its own, or with none, stays as it is. -/
  | kept {statement : Stmt} (plain : statement.ownNamedJump = none)
      (own : bindsJumps statement.kind = true ∨ statement.children = []) 
      (stays : statement = .breakJump none → targets.breakTo = none)
      (goes : statement ≠ .continueJump none) :
      Redirected targets statement statement
  | breaks {target : String} (goal : targets.breakTo = some target) :
      Redirected targets (.breakJump none) (.goto target)
  | continues : Redirected targets (.continueJump none) (.goto targets.continueTo)
  | block {before after : List Stmt} (all : RedirectedAll targets before after) :
      Redirected targets (.block before) (.block after)
  | branch {test : Expr} {thenBefore thenAfter : List Stmt}
      {elseBefore elseAfter : Option (List Stmt)} (thenAll : RedirectedAll targets thenBefore thenAfter)
      (elseAll : RedirectedElse targets elseBefore elseAfter) :
      Redirected targets (.branch test thenBefore elseBefore) (.branch test thenAfter elseAfter)
  | labeled {label : String} {before after : Stmt}
      (inner : redirectStmt targets before = .ok after) :
      Redirected targets (.labeled label before) (.labeled label after)

theorem redirected_of_redirectStmt {targets : LoopTargets} {before after : Stmt}
    (success : redirectStmt targets before = .ok after) : Redirected targets before after := by
  cases before with
  | breakJump label =>
    cases label with
    | some label => simp [redirectStmt] at success
    | none =>
      cases goal : targets.breakTo with
      | some target =>
        simp only [redirectStmt, goal] at success
        cases success
        exact .breaks goal
      | none =>
        simp only [redirectStmt, goal] at success
        cases success
        exact .kept rfl (.inr rfl) (fun _ => goal) nofun
  | continueJump label =>
    cases label with
    | some label => simp [redirectStmt] at success
    | none =>
      cases success
      exact .continues
  | block body =>
    obtain ⟨body', redirects, result⟩ := bind_eq_ok success
    cases result
    exact .block (redirectedAll_of_redirect redirects)
  | branch test thenBody elseBody =>
    cases elseBody with
    | none =>
      obtain ⟨thenBody', redirects, result⟩ := bind_eq_ok success
      cases result
      exact .branch (redirectedAll_of_redirect redirects) .none
    | some elseBody =>
      obtain ⟨thenBody', redirects, others⟩ := bind_eq_ok success
      obtain ⟨elseBody', otherwise, result⟩ := bind_eq_ok others
      cases result
      exact .branch (redirectedAll_of_redirect redirects)
        (.some (redirectedAll_of_redirect otherwise))
  | labeled label body =>
    obtain ⟨body', redirects, result⟩ := bind_eq_ok success
    cases result
    exact .labeled redirects
  | whileLoop | doLoop | forLoop | switch | function =>
    cases success
    exact .kept rfl (.inl rfl) nofun nofun
  | goto | ret | throw | expression | empty =>
    cases success
    exact .kept rfl (.inr rfl) nofun nofun

section Preserved

variable {targets : LoopTargets} {β : Type} {f : Stmt → List β}

theorem RedirectedAll.flatMap_eq {before after : List Stmt}
    (all : RedirectedAll targets before after)
    (each : ∀ statement ∈ before, ∀ result, redirectStmt targets statement = .ok result →
      f result = f statement) : after.flatMap f = before.flatMap f := by
  induction all with
  | nil => rfl
  | @cons first first' rest rest' here _ ih =>
    have later := ih fun statement member =>
      each statement (List.mem_cons_of_mem _ member)
    rw [List.flatMap_cons, List.flatMap_cons, each first (List.mem_cons_self ..) first' here, later]

/-- What is read off the statements one by one is the same after redirecting if it is the
same for each statement by itself. -/
theorem flatMap_of_redirectStmt (own : Stmt → List β)
    (unfolds : ∀ statement, f statement = own statement ++ statement.children.flatMap f)
    (same : ∀ before after, redirectStmt targets before = .ok after → own after = own before)
    {before after : Stmt} (success : redirectStmt targets before = .ok after) :
    f after = f before := by
  induction before using Stmt.childInduction generalizing after with
  | step parent ih =>
    have redirected := redirected_of_redirectStmt success
    rw [unfolds after, unfolds parent, same parent after success]
    congr 1
    cases redirected with
    | kept | breaks | continues => rfl
    | block all => exact all.flatMap_eq fun child member result => ih child member
    | branch thenAll elseAll =>
      simp only [Stmt.children, List.flatMap_append]
      congr 1
      · exact thenAll.flatMap_eq fun child member result =>
          ih child (List.mem_append_left _ member)
      · cases elseAll with
        | none => rfl
        | some all =>
          exact all.flatMap_eq fun child member result => ih child (List.mem_append_right _ member)
    | labeled inner =>
      simp only [Stmt.children, List.flatMap_singleton]
      exact ih _ (List.mem_singleton_self _) inner

theorem Redirected.ownLabel_eq {before after : Stmt} (redirected : Redirected targets before after) :
    after.ownLabel = before.ownLabel := by
  cases redirected <;> rfl

theorem Redirected.kept_of_binds {node result : Stmt} (redirected : Redirected targets node result)
    (keeps : (bindsJumps node.kind = true ∨ node.ownNamedJump ≠ none) ∨
      bindsJumps result.kind = true ∨ result.ownNamedJump ≠ none) : result = node := by
  cases redirected with
  | kept => rfl
  | breaks | continues | block | branch | labeled =>
    rcases keeps with (binds | named) | (binds | named)
    · cases binds
    · exact absurd rfl named
    · cases binds
    · exact absurd rfl named

theorem redirectStmt_labels {before after : Stmt}
    (success : redirectStmt targets before = .ok after) : after.labels = before.labels :=
  flatMap_of_redirectStmt (fun statement => statement.ownLabel.toList) Stmt.labels_eq
    (fun _ _ success => by rw [(redirected_of_redirectStmt success).ownLabel_eq]) success

theorem redirect_labels {body inner : List Stmt} (redirects : redirect targets body = .ok inner) :
    labels inner = labels body :=
  (redirectedAll_of_redirect redirects).flatMap_eq fun _ _ _ success => redirectStmt_labels success

theorem redirectStmt_containsLabels {before after : Stmt}
    (success : redirectStmt targets before = .ok after) :
    after.containsLabels = before.containsLabels := by
  rw [Bool.eq_iff_iff, Stmt.containsLabels_iff, Stmt.containsLabels_iff,
    redirectStmt_labels success]

end Preserved

section Nodes

variable {targets : LoopTargets}

/-- Where a statement inside a redirected body comes from. -/
def ComesFrom (targets : LoopTargets) (sources : List Stmt) (node : Stmt) : Prop :=
  ∃ source ∈ sources, node = source ∨ Redirected targets source node

theorem ComesFrom.mono {small big : List Stmt} {node : Stmt}
    (sub : ∀ source ∈ small, source ∈ big) (comes : ComesFrom targets small node) :
    ComesFrom targets big node := by
  obtain ⟨source, member, origin⟩ := comes
  exact ⟨source, sub source member, origin⟩

theorem RedirectedAll.comesFrom {before after : List Stmt} {node : Stmt}
    (all : RedirectedAll targets before after)
    (each : ∀ statement ∈ before, ∀ result, redirectStmt targets statement = .ok result →
      node ∈ result.nodes → ComesFrom targets statement.nodes node)
    (member : node ∈ nodes after) : ComesFrom targets (nodes before) node := by
  induction all with
  | nil => cases member
  | @cons first first' rest rest' here _ ih =>
    rcases List.mem_append.1 member with inFirst | inRest
    · exact (each first (List.mem_cons_self ..) first' here inFirst).mono
        fun _ inside => List.mem_append_left _ inside
    · exact (ih (fun statement below => each statement (List.mem_cons_of_mem _ below)) inRest).mono
        fun _ inside => List.mem_append_right _ inside

theorem comesFrom_of_redirectStmt {before after node : Stmt}
    (success : redirectStmt targets before = .ok after) (member : node ∈ after.nodes) :
    ComesFrom targets before.nodes node := by
  induction before using Stmt.childInduction generalizing after with
  | step parent ih =>
    have redirected := redirected_of_redirectStmt success
    rcases Stmt.mem_nodes_iff.1 member with same | ⟨child, below, deeper⟩
    · exact ⟨parent, Stmt.mem_nodes_self parent, .inr (same ▸ redirected)⟩
    have lift : ComesFrom targets (nodes parent.children) node →
        ComesFrom targets parent.nodes node :=
      ComesFrom.mono fun source inside => by
        rw [Stmt.nodes_children]
        exact List.mem_cons_of_mem _ inside
    have inChildren : node ∈ nodes after.children := mem_nodes.2 ⟨child, below, deeper⟩
    apply lift
    cases redirected with
    | kept | breaks | continues => exact ⟨node, inChildren, .inl rfl⟩
    | block all =>
      exact all.comesFrom (fun child member result => ih child member) inChildren
    | @branch _ thenBefore _ elseBefore _ thenAll elseAll =>
      simp only [Stmt.children, nodes_append] at inChildren ⊢
      rcases List.mem_append.1 inChildren with inThen | inElse
      · exact (thenAll.comesFrom (fun child member result =>
          ih child (List.mem_append_left _ member)) inThen).mono
            fun _ inside => List.mem_append_left _ inside
      · cases elseAll with
        | none => cases inElse
        | some all =>
          exact (all.comesFrom (fun child member result =>
            ih child (List.mem_append_right _ member)) inElse).mono
              fun _ inside => List.mem_append_right _ inside
    | labeled inner =>
      simp only [Stmt.children, nodes_cons, nodes_nil, List.append_nil] at inChildren ⊢
      exact ih _ (List.mem_singleton_self _) inner inChildren

theorem comesFrom_of_redirect {body inner : List Stmt} {node : Stmt}
    (redirects : redirect targets body = .ok inner) (member : node ∈ nodes inner) :
    ComesFrom targets (nodes body) node :=
  (redirectedAll_of_redirect redirects).comesFrom
    (fun _ _ _ success inside => comesFrom_of_redirectStmt success inside) member

/-- Where a statement of a redirected body goes to. -/
def GoesTo (targets : LoopTargets) (results : List Stmt) (node : Stmt) : Prop :=
  ∃ result ∈ results, result = node ∨ Redirected targets node result

theorem GoesTo.mono {small big : List Stmt} {node : Stmt}
    (sub : ∀ result ∈ small, result ∈ big) (goes : GoesTo targets small node) :
    GoesTo targets big node := by
  obtain ⟨result, member, outcome⟩ := goes
  exact ⟨result, sub result member, outcome⟩

theorem RedirectedAll.goesTo {before after : List Stmt} {node : Stmt}
    (all : RedirectedAll targets before after)
    (each : ∀ statement ∈ before, ∀ result, redirectStmt targets statement = .ok result →
      node ∈ statement.nodes → GoesTo targets result.nodes node)
    (member : node ∈ nodes before) : GoesTo targets (nodes after) node := by
  induction all with
  | nil => cases member
  | @cons first first' rest rest' here _ ih =>
    rcases List.mem_append.1 member with inFirst | inRest
    · exact (each first (List.mem_cons_self ..) first' here inFirst).mono
        fun _ inside => List.mem_append_left _ inside
    · exact (ih (fun statement below => each statement (List.mem_cons_of_mem _ below)) inRest).mono
        fun _ inside => List.mem_append_right _ inside

theorem goesTo_of_redirectStmt {before after node : Stmt}
    (success : redirectStmt targets before = .ok after) (member : node ∈ before.nodes) :
    GoesTo targets after.nodes node := by
  induction before using Stmt.childInduction generalizing after with
  | step parent ih =>
    have redirected := redirected_of_redirectStmt success
    rcases Stmt.mem_nodes_iff.1 member with same | ⟨child, below, deeper⟩
    · exact ⟨after, Stmt.mem_nodes_self after, .inr (same ▸ redirected)⟩
    have lift : GoesTo targets (nodes after.children) node → GoesTo targets after.nodes node :=
      GoesTo.mono fun result inside => by
        rw [Stmt.nodes_children]
        exact List.mem_cons_of_mem _ inside
    have inChildren : node ∈ nodes parent.children := mem_nodes.2 ⟨child, below, deeper⟩
    apply lift
    cases redirected with
    | kept => exact ⟨node, inChildren, .inl rfl⟩
    | breaks | continues => cases below
    | block all => exact all.goesTo (fun child member result => ih child member) inChildren
    | @branch _ thenBefore _ elseBefore _ thenAll elseAll =>
      simp only [Stmt.children, nodes_append] at inChildren ⊢
      rcases List.mem_append.1 inChildren with inThen | inElse
      · exact (thenAll.goesTo (fun child member result =>
          ih child (List.mem_append_left _ member)) inThen).mono
            fun _ inside => List.mem_append_left _ inside
      · cases elseAll with
        | none => cases inElse
        | some all =>
          exact (all.goesTo (fun child member result =>
            ih child (List.mem_append_right _ member)) inElse).mono
              fun _ inside => List.mem_append_right _ inside
    | labeled inner =>
      simp only [Stmt.children, nodes_cons, nodes_nil, List.append_nil] at inChildren ⊢
      exact ih _ (List.mem_singleton_self _) inner inChildren

theorem goesTo_of_redirect {body inner : List Stmt} {node : Stmt}
    (redirects : redirect targets body = .ok inner) (member : node ∈ nodes body) :
    GoesTo targets (nodes inner) node :=
  (redirectedAll_of_redirect redirects).goesTo
    (fun _ _ _ success inside => goesTo_of_redirectStmt success inside) member

/-- What has jumps of its own, or names a label in a jump, is left as it is. -/
theorem mem_nodes_redirectStmt {before after node : Stmt}
    (success : redirectStmt targets before = .ok after)
    (keeps : bindsJumps node.kind = true ∨ node.ownNamedJump ≠ none) :
    node ∈ after.nodes ↔ node ∈ before.nodes := by
  constructor
  · intro member
    obtain ⟨source, inside, same | redirected⟩ := comesFrom_of_redirectStmt success member
    · exact same ▸ inside
    · rwa [← redirected.kept_of_binds (.inr keeps)] at inside
  · intro member
    obtain ⟨result, inside, same | redirected⟩ := goesTo_of_redirectStmt success member
    · exact same ▸ inside
    · rwa [redirected.kept_of_binds (.inl keeps)] at inside

theorem mem_nodes_of_redirect {body inner : List Stmt} {node : Stmt}
    (redirects : redirect targets body = .ok inner)
    (keeps : bindsJumps node.kind = true ∨ node.ownNamedJump ≠ none) (member : node ∈ nodes inner) :
    node ∈ nodes body := by
  obtain ⟨source, inside, same | redirected⟩ := comesFrom_of_redirect redirects member
  · exact same ▸ inside
  · rwa [← redirected.kept_of_binds (.inr keeps)] at inside

/-- Redirected jumps are the only new gotos. -/
theorem redirect_gotoTargets {body inner : List Stmt} {target : String}
    (redirects : redirect targets body = .ok inner) (member : target ∈ gotoTargets inner) :
    target ∈ gotoTargets body ∨ targets.breakTo = some target ∨ target = targets.continueTo := by
  obtain ⟨node, inside, own⟩ := mem_gotoTargets_iff_node.1 member
  obtain ⟨source, inBody, origin⟩ := comesFrom_of_redirect redirects inside
  rcases origin with rfl | redirected
  · exact .inl (mem_gotoTargets_iff_node.2 ⟨node, inBody, own⟩)
  · cases redirected with
    | kept => exact .inl (mem_gotoTargets_iff_node.2 ⟨node, inBody, own⟩)
    | breaks goal =>
      cases own
      exact .inr (.inl goal)
    | continues =>
      cases own
      exact .inr (.inr rfl)
    | block | branch | labeled => cases own

end Nodes

end Unnest.Flatten
