import Unnest.Proofs.Flatten.Throughout
import Unnest.Proofs.Flatten.Verified

/-! Which gotos of a body the check on its blocks lets through: those to declared labels and
to the exit, and those that name a block the run has made up. Names that a run makes up are
kept apart from the labels that a body declares, not from the targets of its gotos. -/

namespace Unnest.Flatten
open Script

/-- The gotos of the statement lead to known names. -/
def Lands (known : String → Prop) (statement : Stmt) : Prop :=
  ∀ target ∈ statement.gotoTargets, known target

section Lands

variable {known : String → Prop}

theorem throughout_lands : Throughout (Lands known) := by
  intro statement _ none
  rw [Lands, Stmt.gotoTargets_children, none]
  constructor
  · exact fun lands child below target goes => lands target (mem_gotoTargets.2 ⟨child, below, goes⟩)
  · intro lands target member
    obtain ⟨child, below, goes⟩ := mem_gotoTargets.1 member
    exact lands child below target goes

/-- Redirecting the jumps of a loop keeps its gotos. -/
theorem gotoTargets_redirect {targets : LoopTargets} {body inner : List Stmt}
    (redirects : redirect targets body = .ok inner) : gotoTargets body ⊆ gotoTargets inner := by
  intro target member
  obtain ⟨node, inBody, own⟩ := mem_gotoTargets_iff_node.1 member
  obtain ⟨result, inside, came⟩ := goesTo_of_redirect redirects inBody
  rcases came with rfl | redirected
  · exact mem_gotoTargets_iff_node.2 ⟨_, inside, own⟩
  · cases redirected with
    | kept => exact mem_gotoTargets_iff_node.2 ⟨_, inside, own⟩
    | breaks | continues | block | branch | labeled => cases own

theorem recovered_lands :
    Recovered (fun body => ∀ statement ∈ body, Lands known statement) (Lands known) := by
  apply throughout_lands.recovered
  intro targets body inner redirects lands statement member target goes
  have inBody : target ∈ gotoTargets body := mem_gotoTargets.2 ⟨statement, member, goes⟩
  obtain ⟨result, inside, goes⟩ := mem_gotoTargets.1 (gotoTargets_redirect redirects inBody)
  exact lands result inside target goes

end Lands

variable {options : Options} {body : List Stmt} {blocks : List LabeledBlock}

/-- The blocks have all the gotos of the body. -/
theorem Flattened.gotoTargets_subset (flattened : Flattened options body blocks) :
    ∀ target ∈ gotoTargets body, ∃ block ∈ blocks, target ∈ gotoTargets block.statements := by
  intro target member
  obtain ⟨statement, inBody, goes⟩ := mem_gotoTargets.1 member
  have recovered : Recovered _
      (Lands fun name => ∃ block ∈ blocks, name ∈ gotoTargets block.statements) := recovered_lands
  refine flattened.recovers recovered ?_ statement inBody target goes
  intro block inBlocks statement inside target goes
  exact ⟨block, inBlocks, mem_gotoTargets.2 ⟨statement, inside, goes⟩⟩

/-- Flattened blocks pass the check exactly when every goto of the body leads to a declared
label, to the exit or to a block whose name the run has made up. -/
theorem gotoTargets_of_check (success : flatten options body = .ok blocks) :
    ∃ final, runFrom #[] options body = .ok blocks final ∧
      (BlockCheck.check blocks options.exitLabel = .ok () ↔
        ∀ target ∈ gotoTargets body, target ∈ labels body ∨ target = options.exitLabel ∨
          ∃ index < final.mint.minted, target = options.anonymousPrefix ++ toString index) := by
  obtain ⟨accepted, final, ran⟩ := flatten_ok_iff.1 success
  have named := mem_names_iff accepted ran
  have flattened := flattened_of_flatten success
  refine ⟨final, ran, ?_⟩
  rw [BlockCheck.check_ok_iff]
  constructor
  · rintro ⟨_, leads⟩ target goes
    obtain ⟨block, member, inside⟩ := flattened.gotoTargets_subset target goes
    rcases leads block member target inside with exit | produced
    · exact .inr (.inl exit)
    · rcases (named target).1 produced with declared | madeUp
      · exact .inl declared
      · exact .inr (.inr madeUp)
  · intro lands
    obtain ⟨sound, _, leads⟩ := flattened.output
    refine ⟨sound, ?_⟩
    intro block member target inside
    rcases leads block member target inside with exit | produced | ofBody
    · exact .inl exit
    · exact .inr produced
    · rcases lands target ofBody with declared | exit | madeUp
      · exact .inr ((named target).2 (.inl declared))
      · exact .inl exit
      · exact .inr ((named target).2 (.inr madeUp))

theorem gotoTargets_of_check_labeled :
    flatten .standard [.labeled "L" (.goto "$sm0")] =
        .ok [⟨"$sm0", [.goto "L"]⟩, ⟨"L", [.goto "$sm0"]⟩] ∧
      ∃ final, runFrom #[] .standard [.labeled "L" (.goto "$sm0")] =
          .ok [⟨"$sm0", [.goto "L"]⟩, ⟨"L", [.goto "$sm0"]⟩] final ∧
        ∃ index < final.mint.minted, "$sm0" = "$sm" ++ toString index := by
  have success : flatten .standard [.labeled "L" (.goto "$sm0")] =
      .ok [⟨"$sm0", [.goto "L"]⟩, ⟨"L", [.goto "$sm0"]⟩] := by cbv
  have passes : BlockCheck.check [⟨"$sm0", [.goto "L"]⟩, ⟨"L", [.goto "$sm0"]⟩] "$exit" =
      .ok () := by cbv
  obtain ⟨final, ran, lands⟩ := gotoTargets_of_check success
  refine ⟨success, final, ran, ?_⟩
  rcases lands.1 passes "$sm0" (by simp) with label | exit | madeUp
  · simp at label
  · exact absurd exit (by decide)
  · exact madeUp

/-- A goto that nothing in the body answers can lead to a block whose name was made up. -/
theorem not_declared_of_check :
    ¬ ∀ options body blocks, flatten options body = .ok blocks →
      BlockCheck.check blocks options.exitLabel = .ok () →
        ∀ target ∈ gotoTargets body, target ∈ labels body ∨ target = options.exitLabel := by
  intro declared
  have success : flatten .standard [.goto "$sm0"] = .ok [⟨"$sm0", [.goto "$sm0"]⟩] := by cbv
  have passes : BlockCheck.check [⟨"$sm0", [.goto "$sm0"]⟩] "$exit" = .ok () := by cbv
  rcases declared _ _ _ success passes "$sm0" (by simp) with label | exit
  · simp at label
  · exact absurd exit (by decide)

end Unnest.Flatten
