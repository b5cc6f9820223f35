import Mathlib
import Unnest.Script.Labels

/-! The statements of a tree, a root before what is below it and all in source order.
What the queries about labels, named jumps and gotos say is said here once in terms of
them. -/

namespace Unnest.Script

namespace Stmt

/-- The statement and all statements below it. -/
def nodes (statement : Stmt) : List Stmt :=
  statement :: statement.children.attach.flatMap fun ⟨child, _⟩ => child.nodes
termination_by sizeOf statement
decreasing_by exact sizeOf_lt_of_mem_children ‹_›

theorem nodes_eq (statement : Stmt) :
    statement.nodes = statement :: statement.children.flatMap nodes := by
  rw [nodes]
  simp

theorem mem_nodes_iff {node statement : Stmt} : node ∈ statement.nodes ↔
    node = statement ∨ ∃ child ∈ statement.children, node ∈ child.nodes := by
  rw [nodes_eq, List.mem_cons, List.mem_flatMap]

theorem mem_nodes_self (statement : Stmt) : statement ∈ statement.nodes :=
  mem_nodes_iff.2 (.inl rfl)

theorem mem_nodes_of_child {node child parent : Stmt} (below : child ∈ parent.children)
    (member : node ∈ child.nodes) : node ∈ parent.nodes :=
  mem_nodes_iff.2 (.inr ⟨child, below, member⟩)

theorem mem_nodes_trans {node middle statement : Stmt} (lower : node ∈ middle.nodes)
    (upper : middle ∈ statement.nodes) : node ∈ statement.nodes := by
  induction statement using childInduction with
  | step parent ih =>
    rcases mem_nodes_iff.1 upper with same | ⟨child, below, deeper⟩
    · exact same ▸ lower
    · exact mem_nodes_of_child below (ih child below deeper)

theorem labels_eq_nodes (statement : Stmt) :
    statement.labels = statement.nodes.filterMap ownLabel := by
  induction statement using childInduction with
  | step parent ih =>
    rw [labels_eq, nodes_eq, List.filterMap_cons, List.filterMap_flatMap,
      List.flatMap_congr ih]
    cases parent.ownLabel <;> rfl

theorem gotoTargets_eq_nodes (statement : Stmt) :
    statement.gotoTargets = statement.nodes.filterMap ownTarget := by
  induction statement using childInduction with
  | step parent ih =>
    rw [gotoTargets_eq, nodes_eq, List.filterMap_cons, List.filterMap_flatMap,
      List.flatMap_congr ih]
    cases parent.ownTarget <;> rfl

theorem mem_labels_iff {label : String} {statement : Stmt} :
    label ∈ statement.labels ↔ ∃ node ∈ statement.nodes, node.ownLabel = some label := by
  rw [labels_eq_nodes, List.mem_filterMap]

theorem mem_gotoTargets_iff {target : String} {statement : Stmt} :
    target ∈ statement.gotoTargets ↔ ∃ node ∈ statement.nodes, node.ownTarget = some target := by
  rw [gotoTargets_eq_nodes, List.mem_filterMap]

/-- A statement contains labels exactly when it declares one. -/
theorem containsLabels_iff {statement : Stmt} :
    statement.containsLabels = true ↔ ∃ label, label ∈ statement.labels := by
  induction statement using childInduction with
  | step parent ih =>
    rw [containsLabels_eq, labels_eq, Bool.or_eq_true, List.any_eq_true]
    constructor
    · rintro (own | ⟨child, below, inside⟩)
      · obtain ⟨label, own⟩ := Option.isSome_iff_exists.1 own
        exact ⟨label, by simp [own]⟩
      · obtain ⟨label, member⟩ := (ih child below).1 inside
        exact ⟨label, List.mem_append_right _ (List.mem_flatMap.2 ⟨child, below, member⟩)⟩
    · rintro ⟨label, member⟩
      rcases List.mem_append.1 member with own | inside
      · exact .inl (by simp [Option.mem_toList.1 own])
      · obtain ⟨child, below, member⟩ := List.mem_flatMap.1 inside
        exact .inr ⟨child, below, (ih child below).2 ⟨label, member⟩⟩

theorem labels_eq_nil_iff {statement : Stmt} :
    statement.labels = [] ↔ statement.containsLabels = false := by
  rw [List.eq_nil_iff_forall_not_mem, ← Bool.not_eq_true, containsLabels_iff, not_exists]

theorem containsLabels_of_node {node statement : Stmt} (member : node ∈ statement.nodes)
    (labeled : node.containsLabels = true) : statement.containsLabels = true := by
  obtain ⟨label, declared⟩ := containsLabels_iff.1 labeled
  obtain ⟨owner, inside, own⟩ := mem_labels_iff.1 declared
  exact containsLabels_iff.2 ⟨label, mem_labels_iff.2 ⟨owner, mem_nodes_trans inside member, own⟩⟩

theorem findSome_congr {α β : Type} {f g : α → Option β} {list : List α}
    (each : ∀ item ∈ list, f item = g item) : list.findSome? f = list.findSome? g := by
  induction list with
  | nil => rfl
  | cons first rest ih =>
    rw [List.findSome?_cons, List.findSome?_cons, each first (List.mem_cons_self ..),
      ih fun item member => each item (List.mem_cons_of_mem _ member)]

theorem firstLabel_eq_head (statement : Stmt) : statement.firstLabel = statement.labels.head? := by
  induction statement using childInduction with
  | step parent ih =>
    rw [firstLabel_eq, labels_eq]
    cases parent.ownLabel with
    | some label => rfl
    | none =>
      rw [Option.toList_none, List.nil_append, List.head?_flatMap]
      exact findSome_congr ih

theorem namedJump_eq_head (statement : Stmt) :
    statement.namedJump = (statement.nodes.filterMap ownNamedJump).head? := by
  induction statement using childInduction with
  | step parent ih =>
    rw [namedJump_eq, nodes_eq, List.filterMap_cons, List.filterMap_flatMap]
    cases parent.ownNamedJump with
    | some jump => rfl
    | none =>
      dsimp only
      rw [List.head?_flatMap]
      exact findSome_congr ih

/-- A statement has no first named jump exactly when no statement in it is one. -/
theorem namedJump_eq_none_iff {statement : Stmt} :
    statement.namedJump = none ↔ ∀ node ∈ statement.nodes, node.ownNamedJump = none := by
  induction statement using childInduction with
  | step parent ih =>
    rw [namedJump_eq]
    constructor
    · intro nothing node member
      cases own : parent.ownNamedJump with
      | some jump => simp [own] at nothing
      | none =>
        simp only [own, List.findSome?_eq_none_iff] at nothing
        rcases mem_nodes_iff.1 member with same | ⟨child, below, deeper⟩
        · exact same ▸ own
        · exact (ih child below).1 (nothing child below) node deeper
    · intro nothing
      rw [nothing parent (mem_nodes_self parent), List.findSome?_eq_none_iff]
      intro child below
      exact (ih child below).2 fun node member => nothing node (mem_nodes_of_child below member)

end Stmt

theorem unlabeled_of_free {node statement : Stmt} (free : statement.containsLabels = false)
    (member : node ∈ statement.nodes) : node.containsLabels = false := by
  rw [← Bool.not_eq_true]
  intro labeled
  rw [Stmt.containsLabels_of_node member labeled] at free
  cases free

/-- The statements of a body and all statements below them. -/
def nodes (body : List Stmt) : List Stmt := body.flatMap Stmt.nodes

theorem mem_nodes {node : Stmt} {body : List Stmt} :
    node ∈ nodes body ↔ ∃ statement ∈ body, node ∈ statement.nodes :=
  List.mem_flatMap

theorem Stmt.nodes_children (statement : Stmt) :
    statement.nodes = statement :: Script.nodes statement.children :=
  statement.nodes_eq

@[simp] theorem nodes_nil : nodes [] = [] := rfl

@[simp] theorem nodes_cons (first : Stmt) (rest : List Stmt) :
    nodes (first :: rest) = first.nodes ++ nodes rest := rfl

@[simp] theorem nodes_append (front back : List Stmt) :
    nodes (front ++ back) = nodes front ++ nodes back := List.flatMap_append

theorem Stmt.labels_children (statement : Stmt) :
    statement.labels = statement.ownLabel.toList ++ Script.labels statement.children :=
  statement.labels_eq

theorem Stmt.gotoTargets_children (statement : Stmt) :
    statement.gotoTargets = statement.ownTarget.toList ++ Script.gotoTargets statement.children :=
  statement.gotoTargets_eq

@[simp] theorem labels_nil : labels [] = [] := rfl

@[simp] theorem labels_cons (first : Stmt) (rest : List Stmt) :
    labels (first :: rest) = first.labels ++ labels rest := rfl

@[simp] theorem labels_append (front back : List Stmt) :
    labels (front ++ back) = labels front ++ labels back := List.flatMap_append

@[simp] theorem gotoTargets_nil : gotoTargets [] = [] := rfl

@[simp] theorem gotoTargets_cons (first : Stmt) (rest : List Stmt) :
    gotoTargets (first :: rest) = first.gotoTargets ++ gotoTargets rest := rfl

@[simp] theorem gotoTargets_append (front back : List Stmt) :
    gotoTargets (front ++ back) = gotoTargets front ++ gotoTargets back := List.flatMap_append

@[simp] theorem Stmt.labels_block (body : List Stmt) :
    (Stmt.block body).labels = Script.labels body := by
  rw [labels_children]
  rfl

@[simp] theorem Stmt.labels_branch (test : Expr) (thenBody : List Stmt)
    (elseBody : Option (List Stmt)) : (Stmt.branch test thenBody elseBody).labels =
      Script.labels thenBody ++ Script.labels (elseBody.getD []) := by
  rw [labels_children, ← labels_append]
  rfl

@[simp] theorem Stmt.labels_labeled (label : String) (body : Stmt) :
    (Stmt.labeled label body).labels = label :: body.labels := by
  rw [labels_children, children, labels_cons, labels_nil, List.append_nil]
  rfl

@[simp] theorem Stmt.labels_goto (target : String) : (Stmt.goto target).labels = [] := by
  rw [labels_children]
  rfl

@[simp] theorem Stmt.labels_expression (value : Expr) : (Stmt.expression value).labels = [] := by
  rw [labels_children]
  rfl

@[simp] theorem Stmt.gotoTargets_block (body : List Stmt) :
    (Stmt.block body).gotoTargets = Script.gotoTargets body := by
  rw [gotoTargets_children]
  rfl

@[simp] theorem Stmt.gotoTargets_branch (test : Expr) (thenBody : List Stmt)
    (elseBody : Option (List Stmt)) : (Stmt.branch test thenBody elseBody).gotoTargets =
      Script.gotoTargets thenBody ++ Script.gotoTargets (elseBody.getD []) := by
  rw [gotoTargets_children, ← gotoTargets_append]
  rfl

@[simp] theorem Stmt.gotoTargets_labeled (label : String) (body : Stmt) :
    (Stmt.labeled label body).gotoTargets = body.gotoTargets := by
  rw [gotoTargets_children, children, gotoTargets_cons, gotoTargets_nil, List.append_nil]
  rfl

@[simp] theorem Stmt.gotoTargets_goto (target : String) :
    (Stmt.goto target).gotoTargets = [target] := by
  rw [gotoTargets_children]
  rfl

@[simp] theorem Stmt.gotoTargets_expression (value : Expr) :
    (Stmt.expression value).gotoTargets = [] := by
  rw [gotoTargets_children]
  rfl

theorem mem_labels {label : String} {body : List Stmt} :
    label ∈ labels body ↔ ∃ statement ∈ body, label ∈ statement.labels :=
  List.mem_flatMap

theorem mem_gotoTargets {target : String} {body : List Stmt} :
    target ∈ gotoTargets body ↔ ∃ statement ∈ body, target ∈ statement.gotoTargets :=
  List.mem_flatMap

/-- A label is declared in a body exactly when some statement in it carries the label. -/
theorem mem_labels_iff_node {label : String} {body : List Stmt} :
    label ∈ labels body ↔ ∃ node ∈ nodes body, node.ownLabel = some label := by
  simp only [mem_labels, Stmt.mem_labels_iff, mem_nodes]
  constructor
  · rintro ⟨statement, inBody, node, inside, own⟩
    exact ⟨node, ⟨statement, inBody, inside⟩, own⟩
  · rintro ⟨node, ⟨statement, inBody, inside⟩, own⟩
    exact ⟨statement, inBody, node, inside, own⟩

theorem labels_subset_of_node {node : Stmt} {body : List Stmt} (member : node ∈ nodes body) :
    node.labels ⊆ labels body := by
  obtain ⟨statement, inBody, below⟩ := mem_nodes.1 member
  intro label declared
  obtain ⟨owner, inside, own⟩ := Stmt.mem_labels_iff.1 declared
  exact mem_labels_iff_node.2
    ⟨owner, mem_nodes.2 ⟨statement, inBody, Stmt.mem_nodes_trans inside below⟩, own⟩

theorem mem_gotoTargets_iff_node {target : String} {body : List Stmt} :
    target ∈ gotoTargets body ↔ ∃ node ∈ nodes body, node.ownTarget = some target := by
  simp only [mem_gotoTargets, Stmt.mem_gotoTargets_iff, mem_nodes]
  constructor
  · rintro ⟨statement, inBody, node, inside, own⟩
    exact ⟨node, ⟨statement, inBody, inside⟩, own⟩
  · rintro ⟨node, ⟨statement, inBody, inside⟩, own⟩
    exact ⟨statement, inBody, node, inside, own⟩

theorem labels_eq_nil_iff_forall {body : List Stmt} :
    labels body = [] ↔ ∀ statement ∈ body, statement.containsLabels = false := by
  rw [labels, List.flatMap_eq_nil_iff]
  simp only [Stmt.labels_eq_nil_iff]

end Unnest.Script
