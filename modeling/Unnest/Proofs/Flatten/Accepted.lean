import Unnest.Flatten.Blocks
import Unnest.Proofs.Script.Nodes

/-! What the checks before a run establish: usable options, and labels that are declared
once and clash with no name of the run's own. -/

namespace Unnest.Flatten
open Script

/-- No label is declared twice or reserved. -/
theorem checkLabels_ok_iff {options : Options} {seen declared : List String} :
    checkLabels options seen declared = .ok () ↔
      declared.Nodup ∧ ∀ label ∈ declared, options.isReserved label = false ∧ label ∉ seen := by
  induction declared generalizing seen with
  | nil => simp [checkLabels]
  | cons label rest ih =>
    rw [checkLabels]
    by_cases reserved : options.isReserved label = true
    · rw [if_pos reserved]
      simp [reserved]
    · rw [if_neg reserved]
      by_cases repeated : seen.contains label = true
      · rw [if_pos repeated]
        have member : label ∈ seen := List.contains_iff_mem.1 repeated
        simp [member]
      · rw [if_neg repeated, ih]
        have absent : label ∉ seen := fun member => repeated (List.contains_iff_mem.2 member)
        have free : options.isReserved label = false := Bool.eq_false_iff.2 reserved
        simp only [List.nodup_cons, List.mem_cons, not_or, forall_eq_or_imp]
        constructor
        · rintro ⟨distinct, others⟩
          refine ⟨⟨fun member => (others label member).2.1 rfl, distinct⟩, ⟨free, absent⟩, ?_⟩
          exact fun other member => ⟨(others other member).1, (others other member).2.2⟩
        · rintro ⟨⟨alone, distinct⟩, _, others⟩
          refine ⟨distinct, fun other member => ⟨(others other member).1, ?_, (others other member).2⟩⟩
          rintro rfl
          exact alone member

/-- A body that passes the checks before a run. -/
structure Accepted (options : Options) (body : List Stmt) : Prop where
  valid : options.validate = .ok ()
  distinct : (labels body).Nodup
  unreserved : ∀ label ∈ labels body, options.isReserved label = false

theorem precheck_ok_iff {options : Options} {body : List Stmt} :
    precheck options body = .ok () ↔ Accepted options body := by
  unfold precheck
  cases valid : options.validate with
  | error fault =>
    constructor
    · nofun
    · intro accepted
      rw [accepted.valid] at valid
      cases valid
  | ok _ =>
    simp only [checkLabels_ok_iff, List.not_mem_nil, not_false_eq_true, and_true]
    exact ⟨fun ⟨distinct, unreserved⟩ => ⟨valid, distinct, unreserved⟩,
      fun accepted => ⟨accepted.distinct, accepted.unreserved⟩⟩

theorem startsAnonymous_append (options : Options) (text : String) :
    options.startsAnonymous (options.anonymousPrefix ++ text) = true := by
  rw [Options.startsAnonymous, String.toList_append, List.isPrefixOf_iff_prefix]
  exact List.prefix_append _ _

theorem startsAnonymous_nameAt (options : Options) (index : Nat) :
    options.startsAnonymous (Mint.nameAt options.anonymousPrefix index) = true :=
  startsAnonymous_append options (toString index)

/-- The exit label of usable options does not look made up. -/
theorem startsAnonymous_exit {options : Options} (valid : options.validate = .ok ()) :
    options.startsAnonymous options.exitLabel = false := by
  unfold Options.validate at valid
  split at valid
  · cases valid
  · split at valid
    · cases valid
    · split at valid
      · cases valid
      · next plain => exact Bool.eq_false_iff.2 plain

theorem exit_ne_nameAt {options : Options} (valid : options.validate = .ok ()) (index : Nat) :
    options.exitLabel ≠ Mint.nameAt options.anonymousPrefix index := by
  intro same
  have plain := startsAnonymous_exit valid
  rw [same, startsAnonymous_nameAt] at plain
  cases plain

theorem Accepted.exit {options : Options} {body : List Stmt} (accepted : Accepted options body)
    (index : Nat) : options.exitLabel ≠ Mint.nameAt options.anonymousPrefix index :=
  exit_ne_nameAt accepted.valid index

/-- A declared label does not look made up. -/
theorem Accepted.named {options : Options} {body : List Stmt} (accepted : Accepted options body)
    {label : String} (member : label ∈ labels body) (index : Nat) :
    label ≠ Mint.nameAt options.anonymousPrefix index := by
  rintro rfl
  have unreserved := accepted.unreserved _ member
  rw [Options.isReserved, startsAnonymous_nameAt, Bool.or_true] at unreserved
  cases unreserved

end Unnest.Flatten
