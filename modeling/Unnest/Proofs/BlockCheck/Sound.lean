import Unnest.BlockCheck
import Unnest.Proofs.Script.Nodes

/-! What the check on block lists establishes: the blocks have distinct names, cannot run off
their ends, and jump only to each other and to the exit. -/

namespace Unnest.BlockCheck
open Script

theorem repeatedName_eq_none_iff {seen names : List String} :
    repeatedName seen names = none ↔ names.Nodup ∧ ∀ name ∈ names, name ∉ seen := by
  induction names generalizing seen with
  | nil => simp [repeatedName]
  | cons name rest ih =>
    rw [repeatedName]
    by_cases repeated : seen.contains name = true
    · have member : name ∈ seen := List.contains_iff_mem.1 repeated
      simp [member]
    · have absent : name ∉ seen := fun member => repeated (List.contains_iff_mem.2 member)
      rw [if_neg repeated, ih, List.nodup_cons]
      simp only [List.mem_cons, not_or, forall_eq_or_imp]
      constructor
      · rintro ⟨distinct, others⟩
        exact ⟨⟨fun member => (others name member).1 rfl, distinct⟩, absent,
          fun other member => (others other member).2⟩
      · rintro ⟨⟨alone, distinct⟩, _, others⟩
        refine ⟨distinct, fun other member => ⟨?_, others other member⟩⟩
        rintro rfl
        exact alone member

/-- Blocks with distinct names that cannot run off their ends. -/
structure Sound (blocks : List LabeledBlock) : Prop where
  distinct : (blocks.map LabeledBlock.name).Nodup
  closed : ∀ block ∈ blocks, fallsThrough block.statements = false

/-- A dangling goto is all that can be wrong with such blocks. -/
theorem Sound.fault {blocks : List LabeledBlock} {exitLabel : String} {fault : BlockFault}
    (sound : Sound blocks) (found : check blocks exitLabel = .error fault) :
    ∃ block ∈ blocks, ∃ target ∈ gotoTargets block.statements,
      fault = .danglingGoto block.name target ∧ target ≠ exitLabel ∧
        target ∉ blocks.map LabeledBlock.name := by
  unfold check firstFault at found
  simp only [repeatedName_eq_none_iff.2 ⟨sound.distinct, fun _ _ => List.not_mem_nil⟩] at found
  cases first : blocks.findSome? (blockFault (blocks.map LabeledBlock.name) exitLabel) with
  | none =>
    simp only [first] at found
    cases found
  | some other =>
    simp only [first] at found
    cases found
    obtain ⟨block, member, faulty⟩ := List.exists_of_findSome?_eq_some first
    unfold blockFault at faulty
    rw [sound.closed block member, if_neg Bool.false_ne_true, Option.map_eq_some_iff] at faulty
    obtain ⟨target, dangling, rfl⟩ := faulty
    have leads := List.mem_of_find?_eq_some dangling
    have nowhere := List.find?_some dangling
    simp only [Bool.and_eq_true, bne_iff_ne, Bool.not_eq_true', List.contains_eq_mem,
      decide_eq_false_iff_not] at nowhere
    exact ⟨block, member, target, leads, rfl, nowhere⟩

theorem Sound.passes {blocks : List LabeledBlock} {exitLabel : String} (sound : Sound blocks)
    (leads : ∀ block ∈ blocks, ∀ target ∈ gotoTargets block.statements,
      target = exitLabel ∨ target ∈ blocks.map LabeledBlock.name) :
    check blocks exitLabel = .ok () := by
  cases checked : check blocks exitLabel with
  | ok _ => rfl
  | error fault =>
    obtain ⟨block, member, target, goes, _, notExit, nowhere⟩ := sound.fault checked
    exact absurd (leads block member target goes) (not_or.2 ⟨notExit, nowhere⟩)

/-- A block list passes the check exactly when it is sound and its gotos all lead somewhere. -/
theorem check_ok_iff {blocks : List LabeledBlock} {exitLabel : String} :
    check blocks exitLabel = .ok () ↔ Sound blocks ∧
      ∀ block ∈ blocks, ∀ target ∈ gotoTargets block.statements,
        target = exitLabel ∨ target ∈ blocks.map LabeledBlock.name := by
  refine ⟨fun passes => ?_, fun ⟨sound, leads⟩ => sound.passes leads⟩
  unfold check firstFault at passes
  cases repeated : repeatedName [] (blocks.map LabeledBlock.name) with
  | some name => simp [repeated] at passes
  | none =>
    cases first : blocks.findSome? (blockFault (blocks.map LabeledBlock.name) exitLabel) with
    | some fault => simp [repeated, first] at passes
    | none =>
      have faultless : ∀ block ∈ blocks,
          blockFault (blocks.map LabeledBlock.name) exitLabel block = none :=
        List.findSome?_eq_none_iff.1 first
      have closed : ∀ block ∈ blocks, fallsThrough block.statements = false := by
        intro block member
        by_contra open_
        have fault := faultless block member
        rw [blockFault, if_pos (Bool.not_eq_false _ ▸ open_)] at fault
        cases fault
      refine ⟨⟨(repeatedName_eq_none_iff.1 repeated).1, closed⟩, ?_⟩
      intro block member target goes
      have fault := faultless block member
      rw [blockFault, closed block member, if_neg Bool.false_ne_true, Option.map_eq_none_iff,
        danglingTarget, List.find?_eq_none] at fault
      have lands := fault target goes
      by_cases exit : target = exitLabel
      · exact .inl exit
      · exact .inr (by simpa [exit] using lands)

end Unnest.BlockCheck
