import Unnest.Proofs.Flatten.Covers

/-! The names of the blocks: the declared labels and the names that were made up, each the
name of exactly one block. -/

namespace Unnest.Flatten
open Script

variable {options : Options} {body : List Stmt} {blocks : List LabeledBlock} {later : Ledger}

/-- The names that a run has bound by its end. -/
theorem Made.bound_iff (accepted : Accepted options body)
    (made : Made options.anonymousPrefix 0 (entryLedger options body) blocks later.sent.length later)
    (name : String) : name ∈ later.names ↔
      name ∈ Script.labels body ∨
        ∃ index < later.minted, name = Mint.nameAt options.anonymousPrefix index := by
  constructor
  · exact (made.steady (steady_entry accepted)).names name
  · rintro (declared | ⟨index, upper, rfl⟩)
    · have reached := made.labels name (by simpa [entryLedger, Pending.labels] using declared)
      exact reached.resolve_right (by simp)
    · cases index with
      | zero => exact made.names_subset (List.mem_singleton_self _)
      | succ index => exact made.covers _ ⟨index + 1, Nat.succ_le_succ (Nat.zero_le _), upper, rfl⟩

/-- A run binds each declared label and each name that it makes up once. -/
theorem Made.names_perm (accepted : Accepted options body)
    (made : Made options.anonymousPrefix 0 (entryLedger options body) blocks later.sent.length later) :
    later.names.Perm
      (Script.labels body ++
        (List.range later.minted).map (Mint.nameAt options.anonymousPrefix)) := by
  have distinct := (made.steady (steady_entry accepted)).distinct
  have apart : (Script.labels body ++
      (List.range later.minted).map (Mint.nameAt options.anonymousPrefix)).Nodup := by
    refine List.nodup_append.2 ⟨accepted.distinct,
      List.nodup_range.map (nameAt_injective options.anonymousPrefix), ?_⟩
    intro label declared name made same
    obtain ⟨index, _, rfl⟩ := List.mem_map.1 made
    exact accepted.named declared index same
  rw [List.perm_ext_iff_of_nodup distinct apart]
  intro name
  rw [made.bound_iff accepted, List.mem_append, List.mem_map]
  simp only [List.mem_range, eq_comm]

/-- The first block has the first name that is made up. -/
theorem Made.first (made : Made options.anonymousPrefix 0 (entryLedger options body) blocks
    later.sent.length later) : later.names.head? = some (Mint.nameAt options.anonymousPrefix 0) := by
  obtain ⟨more, sent⟩ := made.sent
  rw [names_of_sent sent]
  rfl

theorem Accepted.exit_undeclared (accepted : Accepted options body) :
    options.exitLabel ∉ labels body := by
  intro declared
  have unreserved := accepted.unreserved _ declared
  simp [Options.isReserved] at unreserved

/-- The blocks are named by the declared labels and the names that were made up. -/
theorem mem_names_iff {final : Run} (accepted : Accepted options body)
    (ran : runFrom #[] options body = .ok blocks final) (name : String) :
    name ∈ blocks.map LabeledBlock.name ↔
      name ∈ labels body ∨ ∃ index < final.mint.minted, name = options.anonymousPrefix ++ toString index := by
  by_cases more : body = []
  · subst more
    cases ran
    simp [Mint.start, Mint.nameAt, Run.start]
  · obtain ⟨later, made, tracks⟩ := made_of_runFrom accepted more ran
    rw [made.names, tracks.mint]
    exact made.bound_iff accepted name

/-- The blocks have distinct names: the declared labels and the names that were made up, which
differ from each other and from the exit label, beginning with the first made-up name. Every
name that the run has bound is the name of a block, in order, and no block is dropped. -/
theorem names_of_flatten (success : flatten options body = .ok blocks) :
    ∃ final, runFrom #[] options body = .ok blocks final ∧
      (blocks.map LabeledBlock.name).Nodup ∧
      (blocks.map LabeledBlock.name).head? = some (options.anonymousPrefix ++ "0") ∧
      (∀ name, name ∈ blocks.map LabeledBlock.name ↔ name ∈ labels body ∨
        ∃ index < final.mint.minted, name = options.anonymousPrefix ++ toString index) ∧
      (∀ label ∈ labels body, ∀ index : Nat, label ≠ options.anonymousPrefix ++ toString index) ∧
      options.exitLabel ∉ labels body ∧
      (∀ index : Nat, options.exitLabel ≠ options.anonymousPrefix ++ toString index) ∧
      (body ≠ [] →
        final.schedule.registry.names = (blocks.map LabeledBlock.name).reverse ∧
        final.schedule.registered = blocks.length ∧
        blocks.length = (labels body).length + final.mint.minted) ∧
      Journal.told Journal.Entry.dropped final.journal = [] := by
  obtain ⟨accepted, final, ran⟩ := flatten_ok_iff.1 success
  have named := mem_names_iff accepted ran
  refine ⟨final, ran, ?_⟩
  by_cases more : body = []
  · subst more
    cases ran
    have minted : Mint.nameAt options.anonymousPrefix 0 = options.anonymousPrefix ++ "0" := rfl
    exact ⟨List.nodup_singleton _, congrArg some minted, named, nofun, nofun, accepted.exit,
      fun some => absurd rfl some, rfl⟩
  · obtain ⟨later, made, tracks⟩ := made_of_runFrom accepted more ran
    have names := made.names
    have minted : final.mint.minted = later.minted := by rw [tracks.mint]
    have length : blocks.length = later.names.length := by rw [← names, List.length_map]
    have counted := (made.names_perm accepted).length_eq
    rw [List.length_append, List.length_map, List.length_range] at counted
    rw [names, minted]
    refine ⟨(made.steady (steady_entry accepted)).distinct, made.first, made.bound_iff accepted,
      fun label declared => accepted.named declared, accepted.exit_undeclared, accepted.exit,
      fun _ => ⟨tracks.names, ?_, length.trans counted⟩, tracks.undropped⟩
    rw [Schedule.registered, Registry.size, tracks.names, List.length_reverse, length]

theorem names_of_flatten_labeledFor :
    ∃ final, runFrom #[] .standard labeledFor = .ok labeledForBlocks final ∧
      final.schedule.registered = 5 ∧ final.mint.minted = 4 := by
  obtain ⟨final, ran, _, _, _, _, _, _, counts, _⟩ := names_of_flatten flatten_labeledFor
  obtain ⟨_, registered, length⟩ := counts (List.cons_ne_nil _ _)
  have declared : labels labeledFor = ["L"] := by
    simp [labeledFor, Stmt.labels_children (.forLoop _ _ _ _), Stmt.children, Stmt.ownLabel]
  rw [declared] at length
  exact ⟨final, ran, registered, (Nat.add_left_cancel (show 1 + 4 = 1 + _ from length)).symm⟩

end Unnest.Flatten
