import Unnest.Proofs.Flatten.Failures

/-! What the queries about labels say of one tree fits together, and so does what the engine does
on their word: a switch is refused with a label that was checked before the run. -/

namespace Unnest.Script

namespace Stmt

/-- The other statement is this one, or is reached from it from child to child. -/
def Contains : Stmt → Stmt → Prop :=
  Relation.ReflTransGen fun parent child => child ∈ parent.children

theorem mem_nodes_iff_contains {node statement : Stmt} :
    node ∈ statement.nodes ↔ statement.Contains node := by
  constructor
  · induction statement using childInduction with
    | step parent ih =>
      intro member
      rcases mem_nodes_iff.1 member with rfl | ⟨child, below, deeper⟩
      · exact .refl
      · exact .head below (ih child below deeper)
  · intro contains
    induction contains using Relation.ReflTransGen.head_induction_on with
    | refl => exact mem_nodes_self node
    | head below _ ih => exact mem_nodes_of_child below ih

theorem ownLabel_eq_some_iff {statement : Stmt} {label : String} :
    statement.ownLabel = some label ↔ ∃ inner, statement = .labeled label inner := by
  cases statement <;> simp [ownLabel]

theorem containsLabels_iff_firstLabel {statement : Stmt} :
    statement.containsLabels = true ↔ statement.firstLabel.isSome = true := by
  rw [firstLabel_eq_head, List.isSome_head?, ← Bool.not_eq_false, ← labels_eq_nil_iff]

end Stmt

theorem labels_singleton (statement : Stmt) : labels [statement] = statement.labels := by simp

/-- A body has a label exactly when a statement with that label is reached from one of its
statements. -/
theorem mem_labels_iff_contains {body : List Stmt} {label : String} :
    label ∈ labels body ↔ ∃ statement ∈ body, ∃ inner, statement.Contains (.labeled label inner) := by
  simp only [mem_labels, Stmt.mem_labels_iff, Stmt.mem_nodes_iff_contains, Stmt.ownLabel_eq_some_iff]
  constructor
  · rintro ⟨statement, inBody, _, contains, inner, rfl⟩
    exact ⟨statement, inBody, inner, contains⟩
  · rintro ⟨statement, inBody, inner, contains⟩
    exact ⟨statement, inBody, _, contains, inner, rfl⟩

end Unnest.Script

namespace Unnest.Flatten
open Script

section Refusal

variable {options : Options} {body : List Stmt} {label : String}

/-- The check of the labels does not look at switches. -/
theorem checkLabels_ne_labelInSwitch (seen declared : List String) :
    checkLabels options seen declared ≠ .error (.labelInSwitch label) := by
  induction declared generalizing seen with
  | nil =>
    intro passed
    cases passed
  | cons first rest ih =>
    rw [checkLabels]
    split_ifs
    · intro reserved
      cases reserved
    · intro repeated
      cases repeated
    · exact ih _

theorem precheck_of_labelInSwitch
    (failure : flatten options body = .error (.labelInSwitch label)) :
    precheck options body = .ok () := by
  rcases flatten_error_iff.1 failure with checked | ⟨accepted, _, _⟩
  · unfold precheck at checked
    split at checked
    · cases checked
    · exact absurd checked (checkLabels_ne_labelInSwitch _ _)
  · exact precheck_ok_iff.2 accepted

end Refusal

/-- A statement contains labels exactly when it has a first one, and that is the first of its
labels. The labels of a body are those of its statements, one after another, and are the labels
of all labeled statements below. A switch that is refused is therefore refused with its own first
label, which has passed the check. -/
theorem labels_agree :
    (∀ statement : Stmt,
        (statement.containsLabels = true ↔ statement.firstLabel.isSome = true) ∧
          (statement.containsLabels = true ↔ labels [statement] ≠ []) ∧
          statement.firstLabel = (labels [statement]).head?) ∧
      (∀ body : List Stmt, labels body = body.flatMap (fun statement => labels [statement]) ∧
        ∀ label, label ∈ labels body ↔
          ∃ statement ∈ body, ∃ inner, statement.Contains (.labeled label inner)) ∧
      ∀ options body label, flatten options body = .error (.labelInSwitch label) →
        precheck options body = .ok () ∧ label ∈ labels body ∧
          ∃ discriminant cases, .switch discriminant cases ∈ nodes body ∧
            (Stmt.switch discriminant cases).firstLabel = some label := by
  refine ⟨fun statement => ⟨Stmt.containsLabels_iff_firstLabel, ?_, ?_⟩,
    fun body => ⟨?_, fun label => mem_labels_iff_contains⟩, fun options body label failure => ?_⟩
  · rw [labels_singleton, ne_eq, Stmt.labels_eq_nil_iff, Bool.not_eq_false]
  · rw [labels_singleton, Stmt.firstLabel_eq_head]
  · simp only [labels_singleton]
    rfl
  · obtain ⟨discriminant, cases, member, first⟩ := warranted_of_error failure
    have declared := labels_subset_of_node member (List.mem_of_head? first)
    exact ⟨precheck_of_labelInSwitch failure, declared, discriminant, cases, member, by
      rw [Stmt.firstLabel_eq_head, first]⟩

/-- A switch in a loop, with a label behind another clause and under another label. -/
def labeledSwitch : List Stmt :=
  [.whileLoop (.identifier "more") [.switch (.identifier "kind") [.clause none [.breakJump none],
    .clause none [.labeled "outer" (.labeled "inner" .empty)]]]]

theorem labels_agree_labeledSwitch :
    flatten .standard labeledSwitch = .error (.labelInSwitch "outer") ∧
      precheck .standard labeledSwitch = .ok () ∧ "outer" ∈ labels labeledSwitch := by
  have failure : flatten .standard labeledSwitch = .error (.labelInSwitch "outer") := by cbv
  obtain ⟨checked, declared, _⟩ := labels_agree.2.2 _ _ _ failure
  exact ⟨failure, checked, declared⟩

end Unnest.Flatten
