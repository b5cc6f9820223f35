import Unnest.Flatten.LoopJumps
import Unnest.Proofs.Script.Nodes
import Unnest.Script.FallThrough

/-! Trees with other words in them: other names for labels and for the targets of gotos, other
expressions, other nested functions. The structure stays, and every query about a tree sees
the structure and the names only. -/

namespace Unnest.Script

/-- A change of words. It keeps negations and does not make a function into anything else. -/
structure Rewording where
  name : String → String
  expression : Expr → Expr
  function : Stmt → Stmt
  negate : ∀ operand, expression operand.negate = (expression operand).negate
  nested : ∀ statement, statement.kind = .function → (function statement).kind = .function

mutual

/-- The statement in other words. The labels that jumps out of loops name are left alone. -/
def Stmt.reword (words : Rewording) : Stmt → Stmt
  | .block body => .block (reword words body)
  | .branch test thenBody none => .branch (words.expression test) (reword words thenBody) none
  | .branch test thenBody (some elseBody) =>
    .branch (words.expression test) (reword words thenBody) (some (reword words elseBody))
  | .whileLoop condition body => .whileLoop (words.expression condition) (reword words body)
  | .doLoop body condition => .doLoop (reword words body) (words.expression condition)
  | .forLoop init condition iterator body =>
    .forLoop (init.reword words) (condition.map words.expression) (iterator.map words.expression)
      (reword words body)
  | .labeled label body => .labeled (words.name label) (body.reword words)
  | .breakJump label => .breakJump label
  | .continueJump label => .continueJump label
  | .goto target => .goto (words.name target)
  | .ret value => .ret (value.map words.expression)
  | .throw value => .throw (words.expression value)
  | .expression value => .expression (words.expression value)
  | .empty => .empty
  | .switch discriminant cases => .switch (words.expression discriminant) (rewordCases words cases)
  | .function name params body => words.function (.function name params body)

/-- The body in other words. -/
def reword (words : Rewording) : List Stmt → List Stmt
  | [] => []
  | first :: rest => first.reword words :: reword words rest

def rewordCases (words : Rewording) : List Case → List Case
  | [] => []
  | .clause test body :: rest =>
    .clause (test.map words.expression) (reword words body) :: rewordCases words rest

end

/-- A change of names that keeps everything else. -/
def Rewording.renaming (name : String → String) : Rewording :=
  ⟨name, id, id, fun _ => rfl, fun _ same => same⟩

def LabeledBlock.reword (words : Rewording) (block : LabeledBlock) : LabeledBlock :=
  ⟨words.name block.name, Script.reword words block.statements⟩

theorem reword_eq_map (words : Rewording) (body : List Stmt) :
    reword words body = body.map (Stmt.reword words) := by
  induction body with
  | nil => rfl
  | cons first rest ih => exact congrArg (first.reword words :: ·) ih

theorem rewordCases_bodies (words : Rewording) (cases : List Case) :
    (rewordCases words cases).flatMap Case.body = reword words (cases.flatMap Case.body) := by
  induction cases with
  | nil => rfl
  | cons first rest ih =>
    obtain ⟨test, body⟩ := first
    rw [List.flatMap_cons, reword_eq_map, List.map_append, ← reword_eq_map, ← reword_eq_map, ← ih]
    rfl

section Queries

variable {words : Rewording}

/-- A nested function stays one. -/
theorem Stmt.reword_function (words : Rewording) (name : String) (params : List String) (body : List Stmt) :
    ∃ name' params' body',
      (Stmt.function name params body).reword words = .function name' params' body' := by
  have same := words.nested (.function name params body) rfl
  show ∃ name' params' body', words.function _ = _
  cases found : words.function (.function name params body) with
  | function name' params' body' => exact ⟨name', params', body', rfl⟩
  | _ => simp [found, kind] at same

theorem Stmt.kind_reword (statement : Stmt) : (statement.reword words).kind = statement.kind := by
  cases statement with
  | branch test thenBody elseBody => cases elseBody <;> rfl
  | function name params body => exact words.nested _ rfl
  | _ => rfl

theorem Stmt.children_reword (statement : Stmt) :
    (statement.reword words).children = Script.reword words statement.children := by
  cases statement with
  | branch test thenBody elseBody =>
    cases elseBody with
    | none =>
      show Script.reword words thenBody ++ [] = Script.reword words (thenBody ++ [])
      rw [List.append_nil, List.append_nil]
    | some elseBody =>
      show Script.reword words thenBody ++ Script.reword words elseBody =
        Script.reword words (thenBody ++ elseBody)
      simp only [reword_eq_map, List.map_append]
  | switch discriminant cases => exact rewordCases_bodies words cases
  | function name params body =>
    obtain ⟨name', params', body', same⟩ := reword_function words name params body
    rw [same]
    rfl
  | _ => rfl

theorem Stmt.ownLabel_reword (statement : Stmt) :
    (statement.reword words).ownLabel = statement.ownLabel.map words.name := by
  cases statement with
  | branch test thenBody elseBody => cases elseBody <;> rfl
  | function name params body =>
    obtain ⟨name', params', body', same⟩ := reword_function words name params body
    rw [same]
    rfl
  | _ => rfl

theorem Stmt.ownNamedJump_reword (statement : Stmt) :
    (statement.reword words).ownNamedJump = statement.ownNamedJump := by
  cases statement with
  | branch test thenBody elseBody => cases elseBody <;> rfl
  | function name params body =>
    obtain ⟨name', params', body', same⟩ := reword_function words name params body
    rw [same]
    rfl
  | _ => rfl

theorem Stmt.nodes_reword (statement : Stmt) :
    (statement.reword words).nodes = statement.nodes.map (Stmt.reword words) := by
  induction statement using Stmt.childInduction with
  | step parent ih =>
    rw [nodes_eq, nodes_eq parent, children_reword, reword_eq_map, List.map_cons, List.flatMap_map,
      List.map_flatMap]
    exact congrArg _ (List.flatMap_congr ih)

theorem Stmt.labels_reword (statement : Stmt) :
    (statement.reword words).labels = statement.labels.map words.name := by
  rw [labels_eq_nodes, labels_eq_nodes, nodes_reword, List.filterMap_map, List.map_filterMap]
  exact List.filterMap_congr fun node _ => node.ownLabel_reword

theorem labels_reword (body : List Stmt) :
    labels (reword words body) = (labels body).map words.name := by
  rw [labels, labels, reword_eq_map, List.flatMap_map, List.map_flatMap]
  exact List.flatMap_congr fun statement _ => statement.labels_reword

theorem Stmt.containsLabels_reword (statement : Stmt) :
    (statement.reword words).containsLabels = statement.containsLabels := by
  rw [Bool.eq_iff_iff, containsLabels_iff, containsLabels_iff, labels_reword]
  simp

theorem Stmt.firstLabel_reword (statement : Stmt) :
    (statement.reword words).firstLabel = statement.firstLabel.map words.name := by
  rw [firstLabel_eq_head, firstLabel_eq_head, labels_reword, List.head?_map]

theorem Stmt.namedJump_reword (statement : Stmt) :
    (statement.reword words).namedJump = statement.namedJump := by
  rw [namedJump_eq_head, namedJump_eq_head, nodes_reword, List.filterMap_map]
  exact congrArg List.head? (List.filterMap_congr fun node _ => node.ownNamedJump_reword)

theorem Stmt.weight_reword (statement : Stmt) :
    (statement.reword words).weight = statement.weight := by
  induction statement using Stmt.childInduction with
  | step parent ih =>
    rw [weight_eq, weight_eq parent, children_reword, reword_eq_map, List.foldr_map]
    exact congrArg (2 + ·) (List.foldr_ext _ _ _ fun child member total => by rw [ih child member])

theorem weight_reword (body : List Stmt) : weight (reword words body) = weight body := by
  rw [weight, weight, reword_eq_map, List.foldr_map]
  exact List.foldr_ext _ _ _ fun statement _ total => by rw [statement.weight_reword]

theorem fallsThrough_reword_of {body : List Stmt}
    (each : ∀ statement ∈ body, (statement.reword words).fallsThrough = statement.fallsThrough) :
    fallsThrough (reword words body) = fallsThrough body := by
  induction body with
  | nil => rfl
  | cons first rest ih =>
    cases rest with
    | nil => simpa [fallsThrough, reword] using each first (List.mem_cons_self ..)
    | cons second rest =>
      simpa [fallsThrough, reword] using
        ih fun statement member => each statement (List.mem_cons_of_mem _ member)

theorem Stmt.fallsThrough_reword (statement : Stmt) :
    (statement.reword words).fallsThrough = statement.fallsThrough := by
  induction statement using Stmt.childInduction with
  | step parent ih =>
    cases parent with
    | block body =>
      rw [reword, fallsThrough, fallsThrough]
      exact fallsThrough_reword_of ih
    | branch test thenBody elseBody =>
      cases elseBody with
      | none => simp [reword, fallsThrough]
      | some elseBody =>
        rw [reword, fallsThrough, fallsThrough]
        congr 1
        · exact fallsThrough_reword_of fun child member => ih child (List.mem_append_left _ member)
        · exact fallsThrough_reword_of fun child member => ih child (List.mem_append_right _ member)
    | function name params body =>
      obtain ⟨name', params', body', same⟩ := reword_function words name params body
      simp [same, fallsThrough]
    | _ => simp [reword, fallsThrough]

theorem fallsThrough_reword (body : List Stmt) :
    fallsThrough (reword words body) = fallsThrough body :=
  fallsThrough_reword_of fun statement _ => statement.fallsThrough_reword

end Queries

section Renaming

variable {name name' : String → String}

theorem rewordCases_renaming_congr {cases : List Case}
    (same : ∀ statement ∈ cases.flatMap Case.body,
      statement.reword (.renaming name) = statement.reword (.renaming name')) :
    rewordCases (.renaming name) cases = rewordCases (.renaming name') cases := by
  induction cases with
  | nil => rfl
  | cons first rest ih =>
    obtain ⟨test, body⟩ := first
    have here : reword (.renaming name) body = reword (.renaming name') body := by
      rw [reword_eq_map, reword_eq_map]
      exact List.map_congr_left fun statement member => same statement (List.mem_append_left _ member)
    rw [rewordCases, rewordCases, here,
      ih fun statement member => same statement (List.mem_append_right _ member)]
    rfl

/-- Only the names in the statement matter. -/
theorem Stmt.reword_renaming_congr (statement : Stmt)
    (labels : ∀ label ∈ statement.labels, name label = name' label)
    (targets : ∀ target ∈ statement.gotoTargets, name target = name' target) :
    statement.reword (.renaming name) = statement.reword (.renaming name') := by
  induction statement using Stmt.childInduction with
  | step parent ih =>
    rw [labels_children] at labels
    rw [gotoTargets_children] at targets
    have each : ∀ child ∈ parent.children,
        child.reword (.renaming name) = child.reword (.renaming name') := fun child below =>
      ih child below
        (fun label inside => labels label (List.mem_append_right _ (mem_labels.2 ⟨child, below, inside⟩)))
        (fun target inside =>
          targets target (List.mem_append_right _ (mem_gotoTargets.2 ⟨child, below, inside⟩)))
    have inside (body : List Stmt) (within : body ⊆ parent.children) :
        Script.reword (.renaming name) body = Script.reword (.renaming name') body := by
      rw [reword_eq_map, reword_eq_map]
      exact List.map_congr_left fun child member => each child (within member)
    cases parent with
    | block body => rw [reword, reword, inside body (List.Subset.refl _)]
    | branch test thenBody elseBody =>
      have inThen := inside thenBody (List.subset_append_left thenBody (elseBody.getD []))
      cases elseBody with
      | none =>
        rw [reword, reword, inThen]
        rfl
      | some elseBody =>
        rw [reword, reword, inThen, inside elseBody (List.subset_append_right thenBody elseBody)]
        rfl
    | whileLoop condition body | doLoop body condition =>
      rw [reword, reword, inside body (List.Subset.refl _)]
      rfl
    | forLoop init condition iterator body =>
      rw [reword, reword, inside body (List.subset_cons_self _ _), each init (List.mem_cons_self ..)]
      rfl
    | labeled label body =>
      rw [reword, reword, each body (List.mem_singleton_self _)]
      exact congrArg (Stmt.labeled · _) (labels label (List.mem_append_left _ (List.mem_singleton_self _)))
    | goto target =>
      exact congrArg Stmt.goto (targets target (List.mem_append_left _ (List.mem_singleton_self _)))
    | switch discriminant cases =>
      rw [reword, reword, rewordCases_renaming_congr each]
      rfl
    | _ => rfl

theorem reword_renaming_congr {body : List Stmt}
    (labeled : ∀ label ∈ labels body, name label = name' label)
    (targets : ∀ target ∈ gotoTargets body, name target = name' target) :
    reword (.renaming name) body = reword (.renaming name') body := by
  rw [reword_eq_map, reword_eq_map]
  exact List.map_congr_left fun statement member => statement.reword_renaming_congr
    (fun label inside => labeled label (mem_labels.2 ⟨statement, member, inside⟩))
    (fun target inside => targets target (mem_gotoTargets.2 ⟨statement, member, inside⟩))

end Renaming

end Unnest.Script
