import Unnest.Proofs.Flatten.Supported
import Unnest.Proofs.Flatten.Throughout

/-! Every unsupported input is rejected, except for a jump with a label in the initializer of
a `for` loop that contains labels. Nobody checks such a jump, so it ends up in a block. -/

namespace Unnest.Flatten
open Script

/-- No break or continue in the statement names a label. -/
def Unnamed (statement : Stmt) : Prop := statement.namedJump = none

theorem unnamed_iff {statement : Stmt} :
    Unnamed statement ↔ statement.ownNamedJump = none ∧
      ∀ child ∈ statement.children, Unnamed child := by
  rw [Unnamed, Stmt.namedJump_eq]
  cases own : statement.ownNamedJump with
  | none => simp [Unnamed]
  | some jump => simp

theorem unnamed_of_children {statement : Stmt} (own : statement.ownNamedJump = none) :
    Unnamed statement ↔ ∀ child ∈ statement.children, Unnamed child := by
  rw [unnamed_iff, own]
  simp

theorem unnamed_redirectStmt {targets : LoopTargets} {before after : Stmt}
    (success : redirectStmt targets before = .ok after) : Unnamed after ↔ Unnamed before := by
  rw [Unnamed, Unnamed, Stmt.namedJump_eq_none_iff, Stmt.namedJump_eq_none_iff]
  constructor
  · intro clean node member
    by_contra named
    exact named (clean node ((mem_nodes_redirectStmt success (.inr named)).2 member))
  · intro clean node member
    by_contra named
    exact named (clean node ((mem_nodes_redirectStmt success (.inr named)).1 member))

theorem unnamed_redirect {targets : LoopTargets} {body inner : List Stmt}
    (redirects : redirect targets body = .ok inner) :
    (∀ statement ∈ inner, Unnamed statement) ↔ ∀ statement ∈ body, Unnamed statement := by
  have all := redirectedAll_of_redirect redirects
  clear redirects
  induction all with
  | nil => exact Iff.rfl
  | cons here _ ih =>
    rw [List.forall_mem_cons, List.forall_mem_cons]
    exact and_congr (unnamed_redirectStmt here) ih

theorem carried_unnamed : Carried (fun _ => True) Unnamed where
  block clean := (unnamed_of_children rfl).1 clean
  branch := by
    intro test thenBody elseBody
    rw [unnamed_of_children rfl, Stmt.children, List.forall_mem_append]
  labeled clean := ⟨trivial, (unnamed_of_children rfl).1 clean _ (List.mem_singleton_self _)⟩
  goto _ := (unnamed_of_children rfl).2 nofun
  expression := (unnamed_of_children rfl).2 nofun
  init clean := (unnamed_of_children rfl).1 clean _ (List.mem_cons_self ..)
  loop clean _ isLoop redirects _ _ _ := by
    rw [unnamed_redirect redirects]
    intro statement member
    apply (unnamed_iff.1 clean).2 statement
    exact body_subset_children isLoop member

theorem throughout_unnamed : Throughout Unnamed := fun _ own _ => unnamed_of_children own

theorem recovered_unnamed :
    Recovered (fun body => ∀ statement ∈ body, Unnamed statement) Unnamed :=
  throughout_unnamed.recovered fun redirects => (unnamed_redirect redirects).1

section Result

variable {options : Options} {body : List Stmt} {blocks : List LabeledBlock}

theorem unnamed_iff_nodes {statements : List Stmt} :
    (∀ statement ∈ statements, Unnamed statement) ↔
      ∀ node ∈ nodes statements, node.ownNamedJump = none := by
  simp only [Unnamed, Stmt.namedJump_eq_none_iff]
  constructor
  · intro clean node member
    obtain ⟨statement, inside, below⟩ := mem_nodes.1 member
    exact clean statement inside node below
  · exact fun clean statement inside node below => clean node (mem_nodes.2 ⟨statement, inside, below⟩)

/-- The blocks name a label in a jump exactly when the body does. -/
theorem Flattened.unnamed_iff (flattened : Flattened options body blocks) :
    (∀ block ∈ blocks, ∀ statement ∈ block.statements, Unnamed statement) ↔
      ∀ statement ∈ body, Unnamed statement :=
  ⟨flattened.recovers recovered_unnamed, flattened.carried carried_unnamed⟩

/-- A jump of the body names a label exactly when one does in the initializer of a `for` loop
that contains labels. -/
theorem Flattened.named_iff (flattened : Flattened options body blocks) :
    (∀ node ∈ nodes body, node.ownNamedJump = none) ↔ ¬ NamedInInit (nodes body) := by
  constructor
  · rintro clean ⟨loop, member, init, isLoop, named⟩
    apply named
    rw [Stmt.namedJump_eq_none_iff]
    intro node below
    apply clean node
    obtain ⟨statement, inside, within⟩ := mem_nodes.1 member
    refine mem_nodes.2 ⟨statement, inside, Stmt.mem_nodes_trans ?_ within⟩
    cases loop with
    | forLoop first condition iterator others =>
      rw [labeledForInit] at isLoop
      split at isLoop
      · cases isLoop
        exact Stmt.mem_nodes_of_child (List.mem_cons_self ..) below
      · cases isLoop
    | _ => cases isLoop
  · intro unnamed node member
    by_contra named
    obtain ⟨statement, inside, below⟩ := mem_nodes.1 member
    apply unnamed
    exact ((flattened.supported statement inside).jumps node below named).mono
      fun node below => mem_nodes.2 ⟨statement, inside, below⟩

/-- Every body that flattens has usable options, labels that are unique and free to use, and
no label in a switch or in the initializer of a `for` loop. Named jumps are rejected too, in
the body and hence in the blocks, except where they stand in the initializer of a `for` loop
that contains labels. -/
theorem supported_of_flatten (success : flatten options body = .ok blocks) :
    options.validate = .ok () ∧ (∀ label ∈ labels body, options.isReserved label = false) ∧
      (labels body).Nodup ∧
      (∀ discriminant cases, .switch discriminant cases ∈ nodes body →
        ∀ case ∈ cases, labels case.body = []) ∧
      (∀ init condition iterator loopBody, .forLoop init condition iterator loopBody ∈ nodes body →
        init.labels = []) ∧
      ((∀ node ∈ nodes body, node.ownNamedJump = none) ↔ ¬ NamedInInit (nodes body)) ∧
      ((∀ block ∈ blocks, ∀ node ∈ nodes block.statements, node.ownNamedJump = none) ↔
        ¬ NamedInInit (nodes body)) := by
  have flattened := flattened_of_flatten success
  obtain ⟨valid, distinct, unreserved⟩ := flattened.accepted
  refine ⟨valid, unreserved, distinct, ?_, ?_, flattened.named_iff, ?_⟩
  · intro discriminant cases member case inCases
    obtain ⟨statement, inside, below⟩ := mem_nodes.1 member
    have free := (flattened.supported statement inside).switches _ _ below
    rw [labels_eq_nil_iff_forall]
    intro child inCase
    have under : child ∈ (Stmt.switch discriminant cases).children :=
      List.mem_flatMap.2 ⟨case, inCases, inCase⟩
    exact unlabeled_of_free free (Stmt.mem_nodes_of_child under (Stmt.mem_nodes_self child))
  · intro init condition iterator loopBody member
    obtain ⟨statement, inside, below⟩ := mem_nodes.1 member
    exact Stmt.labels_eq_nil_iff.2 ((flattened.supported statement inside).inits _ _ _ _ below)
  · rw [← flattened.named_iff, ← unnamed_iff_nodes, ← flattened.unnamed_iff]
    simp only [unnamed_iff_nodes]

end Result

/-- The clauses of a switch, without labels. -/
def plainClauses : List Case := [.clause (some (.identifier "off")) [.breakJump none]]

/-- A switch, and behind it a `for` loop with the given initializer around a label. -/
def switchedLoop (init : Stmt) : List Stmt :=
  [.switch (.identifier "mode") plainClauses,
    .forLoop init (some (.identifier "more")) (some (.identifier "step"))
      [.labeled "L" (.expression (.identifier "work"))]]

/-- The switch and the initializer are copied, and the loop moves to a block of its own. -/
def switchedLoopBlocks (init : Stmt) : List LabeledBlock :=
  [⟨"$sm0", [.switch (.identifier "mode") plainClauses, init, .goto "$sm1"]⟩,
    ⟨"$sm1", [.ifThen (.unary "!" (.identifier "more")) [.goto "$exit"], .goto "L"]⟩,
    ⟨"L", [.expression (.identifier "work"), .goto "$sm2"]⟩,
    ⟨"$sm2", [.expression (.identifier "step"), .goto "$sm1"]⟩]

/-- The initializer is the only place where such a body can have a jump that nobody checks. -/
theorem namedInInit_switchedLoop {init : Stmt} (leaf : init.children = []) :
    NamedInInit (nodes (switchedLoop init)) ↔ init.namedJump ≠ none := by
  have alone : init.nodes = [init] := by
    rw [Stmt.nodes_children, leaf, nodes_nil]
  have found : nodes (switchedLoop init) =
      [.switch (.identifier "mode") plainClauses, .breakJump none,
        .forLoop init (some (.identifier "more")) (some (.identifier "step"))
          [.labeled "L" (.expression (.identifier "work"))],
        init, .labeled "L" (.expression (.identifier "work")),
        .expression (.identifier "work")] := by
    simp [switchedLoop, plainClauses, Stmt.nodes_children (.switch _ _),
      Stmt.nodes_children (.breakJump _), Stmt.nodes_children (.forLoop _ _ _ _),
      Stmt.nodes_children (.labeled _ _), Stmt.nodes_children (.expression _), Stmt.children,
      Case.body, alone]
  have labeled : (Stmt.forLoop init (some (.identifier "more")) (some (.identifier "step"))
      [.labeled "L" (.expression (.identifier "work"))]).containsLabels = true := by
    rw [← Bool.not_eq_false, ← Stmt.labels_eq_nil_iff]
    simp [Stmt.labels_children, Stmt.children, Stmt.ownLabel]
  have apart : labeledForInit init = none := by
    cases init with
    | forLoop => cases leaf
    | _ => rfl
  have loop : labeledForInit (.forLoop init (some (.identifier "more")) (some (.identifier "step"))
      [.labeled "L" (.expression (.identifier "work"))]) = some init := if_pos labeled
  rw [NamedInInit, found]
  constructor
  · rintro ⟨node, member, other, isInit, named⟩
    simp only [List.mem_cons, List.not_mem_nil, or_false] at member
    obtain rfl | rfl | rfl | rfl | rfl | rfl := member
    · cases isInit
    · cases isInit
    · cases loop.symm.trans isInit
      exact named
    · cases apart.symm.trans isInit
    · cases isInit
    · cases isInit
  · exact fun named => ⟨_, by simp, init, loop, named⟩

/-- With an initializer that is an expression, no block has a jump with a label. With one that
jumps to a label, a block has. -/
theorem supported_of_flatten_switchedLoop :
    (flatten .standard (switchedLoop (.expression (.identifier "start"))) =
        .ok (switchedLoopBlocks (.expression (.identifier "start"))) ∧
      (∀ case ∈ plainClauses, labels case.body = []) ∧
      (Stmt.expression (.identifier "start")).labels = [] ∧
      ∀ block ∈ switchedLoopBlocks (.expression (.identifier "start")),
        ∀ node ∈ nodes block.statements, node.ownNamedJump = none) ∧
      flatten .standard (switchedLoop (.breakJump (some "X"))) =
          .ok (switchedLoopBlocks (.breakJump (some "X"))) ∧
        ¬ ∀ block ∈ switchedLoopBlocks (.breakJump (some "X")),
          ∀ node ∈ nodes block.statements, node.ownNamedJump = none := by
  have member {init statement : Stmt} (inside : statement ∈ switchedLoop init) :
      statement ∈ nodes (switchedLoop init) :=
    mem_nodes.2 ⟨statement, inside, Stmt.mem_nodes_self statement⟩
  constructor
  · have success : flatten .standard (switchedLoop (.expression (.identifier "start"))) =
        .ok (switchedLoopBlocks (.expression (.identifier "start"))) := by cbv
    obtain ⟨_, _, _, switches, inits, _, jumps⟩ := supported_of_flatten success
    refine ⟨success, switches _ _ (member (List.mem_cons_self ..)),
      inits _ _ _ _ (member (List.mem_cons_of_mem _ (List.mem_singleton_self _))), jumps.2 ?_⟩
    rw [namedInInit_switchedLoop rfl]
    simp [Stmt.namedJump_eq, Stmt.ownNamedJump, Stmt.children]
  · have success : flatten .standard (switchedLoop (.breakJump (some "X"))) =
        .ok (switchedLoopBlocks (.breakJump (some "X"))) := by cbv
    obtain ⟨_, _, _, _, _, _, jumps⟩ := supported_of_flatten success
    refine ⟨success, fun clean => jumps.1 clean ?_⟩
    rw [namedInInit_switchedLoop rfl]
    simp [Stmt.namedJump_eq, Stmt.ownNamedJump]

end Unnest.Flatten
