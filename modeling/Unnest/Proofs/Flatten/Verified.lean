import Unnest.Proofs.BlockCheck.Sound
import Unnest.Proofs.Flatten.BlockNames
import Unnest.Proofs.Flatten.Leads

/-! Flattened blocks pass the check on block lists, up to gotos of the body that lead
nowhere themselves. -/

namespace Unnest.Flatten
open Script

variable {options : Options} {body : List Stmt} {blocks : List LabeledBlock}

theorem Made.closed {stem : String} {done last : Nat} {ledger later : Ledger}
    (made : Made stem done ledger blocks last later) :
    ∀ block ∈ blocks, fallsThrough block.statements = false := by
  induction made with
  | stops => nofun
  | makes waits placed made ih =>
    intro block member
    rcases List.mem_cons.1 member with rfl | later
    · exact placed.closed rfl
    · exact ih block later

/-- What the blocks of a flattened body are like. -/
structure Output (options : Options) (body : List Stmt) (blocks : List LabeledBlock) : Prop where
  sound : BlockCheck.Sound blocks
  labels : labels body ⊆ blocks.map LabeledBlock.name
  targets : ∀ block ∈ blocks, ∀ target ∈ gotoTargets block.statements,
    target = options.exitLabel ∨ target ∈ blocks.map LabeledBlock.name ∨ target ∈ gotoTargets body

theorem Flattened.output (flattened : Flattened options body blocks) :
    Output options body blocks := by
  cases flattened with
  | nothing accepted =>
    refine ⟨⟨by simp, ?_⟩, List.nil_subset _, ?_⟩
    · intro block member
      cases List.mem_singleton.1 member
      rfl
    · intro block member target goes
      cases List.mem_singleton.1 member
      exact .inl (by simpa using goes)
  | @something _ _ later accepted made =>
    have steady := made.steady (steady_entry accepted)
    have names := made.names
    have bound := made.bound_iff accepted
    have declared : Script.labels body ⊆ later.names := fun label member => (bound label).2 (.inl member)
    have made_up : ∀ index < later.minted, Mint.nameAt options.anonymousPrefix index ∈ later.names :=
      fun index upper => (bound _).2 (.inr ⟨index, upper, rfl⟩)
    refine ⟨⟨names ▸ steady.distinct, made.closed⟩, names ▸ declared, ?_⟩
    intro block member target goes
    let known (name : String) : Prop :=
      name = options.exitLabel ∨ name ∈ later.names ∨ name ∈ gotoTargets body
    have leads := made.carried (carried_leads : Carried known (Leads known))
      (fun name bound => .inr (.inl bound)) (fun index upper => .inr (.inl (made_up index upper)))
      (by
        intro entry first
        cases List.mem_singleton.1 first
        refine ⟨?_, .inl rfl⟩
        rw [Continuation.remaining_ofBlock]
        intro statement inBody
        exact ⟨fun label inside => .inr (.inl (declared (mem_labels.2 ⟨statement, inBody, inside⟩))),
          fun target inside => .inr (.inr (mem_gotoTargets.2 ⟨statement, inBody, inside⟩))⟩)
      block member
    obtain ⟨statement, inBlock, inside⟩ := mem_gotoTargets.1 goes
    rw [names]
    exact (leads statement inBlock).targets target inside

/-- Every declared label has a block, the names of the blocks are distinct, no block runs off its
end, and a jump leads to the exit, to a block, or where a goto of the body leads nowhere itself. So
flattened blocks pass the check, and only such a goto can be reported. -/
theorem check_of_flatten (success : flatten options body = .ok blocks) :
    labels body ⊆ blocks.map LabeledBlock.name ∧
      (blocks.map LabeledBlock.name).Nodup ∧
      (∀ block ∈ blocks, fallsThrough block.statements = false) ∧
      (∀ block ∈ blocks, ∀ target ∈ gotoTargets block.statements,
        target = options.exitLabel ∨ target ∈ blocks.map LabeledBlock.name ∨
          target ∈ gotoTargets body ∧ target ∉ labels body) ∧
      (∀ fault, BlockCheck.check blocks options.exitLabel = .error fault →
        ∃ source target, fault = .danglingGoto source target ∧ target ∈ gotoTargets body ∧
          target ∉ labels body ∧ target ≠ options.exitLabel) ∧
      ((∀ target ∈ gotoTargets body, target ∈ labels body ∨ target = options.exitLabel) →
        BlockCheck.check blocks options.exitLabel = .ok ()) := by
  obtain ⟨sound, declared, leads⟩ := (flattened_of_flatten success).output
  have lands : ∀ block ∈ blocks, ∀ target ∈ gotoTargets block.statements,
      target = options.exitLabel ∨ target ∈ blocks.map LabeledBlock.name ∨
        target ∈ gotoTargets body ∧ target ∉ labels body := by
    intro block member target goes
    rcases leads block member target goes with exit | produced | ofBody
    · exact .inl exit
    · exact .inr (.inl produced)
    · by_cases label : target ∈ labels body
      · exact .inr (.inl (declared label))
      · exact .inr (.inr ⟨ofBody, label⟩)
  refine ⟨declared, sound.distinct, sound.closed, lands, ?_, ?_⟩
  · intro fault found
    obtain ⟨block, member, target, goes, rfl, notExit, nowhere⟩ := sound.fault found
    obtain ⟨ofBody, undeclared⟩ :=
      ((lands block member target goes).resolve_left notExit).resolve_left nowhere
    exact ⟨block.name, target, rfl, ofBody, undeclared, notExit⟩
  · intro landed
    apply sound.passes
    intro block member target goes
    rcases lands block member target goes with exit | produced | ⟨ofBody, undeclared⟩
    · exact .inl exit
    · exact .inr produced
    · exact .inl ((landed target ofBody).resolve_left undeclared)

/-- A label that jumps to itself, and a goto that leads nowhere: the first lands, the second is
reported. -/
theorem check_of_flatten_self_loop :
    BlockCheck.check [⟨"$sm0", [.goto "L"]⟩, ⟨"L", [.goto "L"]⟩] "$exit" = .ok () ∧
      (∀ block ∈ ([⟨"$sm0", [.goto "L"]⟩, ⟨"L", [.goto "L"]⟩] : List LabeledBlock),
        fallsThrough block.statements = false) ∧
      ∀ target ∈ gotoTargets [.goto "M"], target = "$exit" ∨ target ∈ ["$sm0", "L"] ∨
        target ∈ gotoTargets [.labeled "L" (.goto "M")] ∧
          target ∉ labels [.labeled "L" (.goto "M")] := by
  have success : flatten .standard [.labeled "L" (.goto "L")] =
      .ok [⟨"$sm0", [.goto "L"]⟩, ⟨"L", [.goto "L"]⟩] := by cbv
  have astray : flatten .standard [.labeled "L" (.goto "M")] =
      .ok [⟨"$sm0", [.goto "L"]⟩, ⟨"L", [.goto "M"]⟩] := by cbv
  obtain ⟨_, _, closed, _, _, passes⟩ := check_of_flatten success
  obtain ⟨_, _, _, lands, _, _⟩ := check_of_flatten astray
  refine ⟨passes fun target goes => .inl (by simpa using goes), closed, ?_⟩
  exact lands ⟨"L", [.goto "M"]⟩ (by simp)

end Unnest.Flatten
