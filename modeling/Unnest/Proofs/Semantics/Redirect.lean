import Unnest.Proofs.Semantics.Monotone

/-! Redirecting the jumps of a loop keeps what its body means, as long as the new targets lead
to where the jumps led and no jump of the loop is out of reach. -/

namespace Unnest.Script
open Flatten

universe u

variable {σ : Type u} {meant : Interpretation σ} {exits exits' : Exits σ}

section Agree

/-- The jumps out of the statement lead to where the same is shown. -/
def Stmt.Agrees (statement : Stmt) (exits exits' : Exits σ) : Prop :=
  statement.Jumps (exits.breaks = exits'.breaks) (exits.continues = exits'.continues)
    fun target => exits.goto target = exits'.goto target

theorem Stmt.Agrees.below {statement : Stmt} (agrees : statement.Agrees exits exits') :
    statement.Below exits exits' ∧ statement.Below exits' exits :=
  ⟨⟨fun escaping => (agrees.breaks escaping).le, fun escaping => (agrees.continues escaping).le,
      fun target member => (agrees.goto target member).le⟩,
    ⟨fun escaping => (agrees.breaks escaping).ge, fun escaping => (agrees.continues escaping).ge,
      fun target member => (agrees.goto target member).ge⟩⟩

/-- A statement without jumps of its own agrees wherever its gotos do. -/
theorem Stmt.agrees_of_contained {statement : Stmt}
    (own : ∀ jump, escapes jump statement = false)
    (goto : ∀ target ∈ statement.gotoTargets, exits.goto target = exits'.goto target) :
    statement.Agrees exits exits' where
  breaks escaping := by simp [own] at escaping
  continues escaping := by simp [own] at escaping
  goto := goto

theorem meaning_congr {code : List Stmt} (falls : exits.falls = exits'.falls)
    (agree : ∀ statement ∈ code, statement.Agrees exits exits') :
    meaning meant exits code = meaning meant exits' code :=
  (meaning_mono falls.le fun statement member => (agree statement member).below.1).antisymm
    (meaning_mono falls.ge fun statement member => (agree statement member).below.2)

theorem eq_of_raised {entries entries' : List (String × Sights σ)}
    (raised : List.Forall₂ Raised entries entries') (lowered : List.Forall₂ Raised entries' entries) :
    entries = entries' := by
  induction raised with
  | nil => rfl
  | cons first _ ih =>
    obtain _ | ⟨back, rest⟩ := lowered
    exact congrArg₂ _ (Prod.ext first.label (first.shows.antisymm back.shows)) (ih rest)

theorem entries_congr {code : List Stmt} (falls : exits.falls = exits'.falls)
    (agree : ∀ statement ∈ code, statement.Agrees exits exits') :
    entries meant exits code = entries meant exits' code :=
  eq_of_raised
    (entries_mono falls.le fun statement member => (agree statement member).below.1)
    (entries_mono falls.ge fun statement member => (agree statement member).below.2)

end Agree

/-- Two statements mean the same, each with exits of its own, and show the same from each label. -/
structure Stmt.SameMeaning (meant : Interpretation σ) (statement statement' : Stmt)
    (exits exits' : Exits σ) : Prop where
  meaning : statement.meaning meant exits = statement'.meaning meant exits'
  entries : statement.entries meant exits = statement'.entries meant exits'

/-- Two pieces of code mean the same and show the same from each label. -/
structure SameMeaning (meant : Interpretation σ) (code code' : List Stmt) (exits exits' : Exits σ) :
    Prop where
  meaning : meaning meant exits code = Script.meaning meant exits' code'
  entries : entries meant exits code = Script.entries meant exits' code'

theorem Stmt.sameMeaning_of_agrees {statement : Stmt} (falls : exits.falls = exits'.falls)
    (agrees : statement.Agrees exits exits') : statement.SameMeaning meant statement exits exits' where
  meaning := (Stmt.meaning_mono falls.le agrees.below.1).antisymm
    (Stmt.meaning_mono falls.ge agrees.below.2)
  entries := eq_of_raised (Stmt.entries_mono falls.le agrees.below.1)
    (Stmt.entries_mono falls.ge agrees.below.2)

/-- The targets lead to where the jumps of a loop led. -/
structure Serves (targets : LoopTargets) (exits exits' : Exits σ) : Prop where
  falls : exits.falls = exits'.falls
  breaks : ∀ target, targets.breakTo = some target → exits.goto target = exits'.breaks
  continues : exits.goto targets.continueTo = exits'.continues
  goto : exits.goto = exits'.goto

/-- What is behind code does not matter to its jumps. -/
theorem Serves.falling {targets : LoopTargets} {falls falls' : Sights σ}
    (serves : Serves targets exits exits') (same : falls = falls') :
    Serves targets { exits with falls := falls } { exits' with falls := falls' } :=
  ⟨same, serves.breaks, serves.continues, serves.goto⟩

section Redirect

variable {targets : LoopTargets}

theorem sameMeaning_of_redirectedAll {before after : List Stmt}
    (all : RedirectedAll targets before after)
    (serves : Serves targets exits exits')
    (each : ∀ statement ∈ before, ∀ result, redirectStmt targets statement = .ok result →
      ∀ {exits exits' : Exits σ}, Serves targets exits exits' →
        result.SameMeaning meant statement exits exits') :
    SameMeaning meant after before exits exits' := by
  induction all with
  | nil => exact ⟨serves.falls, rfl⟩
  | @cons first first' rest rest' here _ ih =>
    have later := ih fun statement member => each statement (List.mem_cons_of_mem _ member)
    have now := each first (List.mem_cons_self ..) first' here (serves.falling later.meaning)
    exact ⟨now.meaning, congrArg₂ (· ++ ·) now.entries later.entries⟩

/-- A statement means the same once its jumps are redirected. -/
theorem sameMeaning_of_redirectStmt {before after : Stmt}
    (success : redirectStmt targets before = .ok after)
    (reached : ∀ jump, hidden jump before = false)
    (nowhere : targets.breakTo = none → breaksOut before = false)
    (serves : Serves targets exits exits') : after.SameMeaning meant before exits exits' := by
  induction before using Stmt.childInduction generalizing after exits exits' with
  | step parent ih =>
    have below (binds : bindsJumps parent.kind = false) (child : Stmt)
        (member : child ∈ parent.children) : (∀ jump, hidden jump child = false) ∧
          (targets.breakTo = none → breaksOut child = false) := by
      constructor
      · intro jump
        have whole := reached jump
        rw [hidden_eq, binds, if_neg Bool.false_ne_true, List.any_eq_false] at whole
        exact Bool.eq_false_iff.2 (whole child member)
      · intro missing
        have whole := nowhere missing
        rw [breaksOut_eq, binds, if_neg Bool.false_ne_true, Bool.or_eq_false_iff,
          List.any_eq_false] at whole
        exact Bool.eq_false_iff.2 (whole.2 child member)
    have part {body result : List Stmt} (binds : bindsJumps parent.kind = false)
        (inside : body ⊆ parent.children) (all : RedirectedAll targets body result) :
        SameMeaning meant result body exits exits' :=
      sameMeaning_of_redirectedAll all serves fun child member result success =>
        ih child (inside member) success (below binds child (inside member)).1
          (below binds child (inside member)).2
    cases redirected_of_redirectStmt success with
    | kept =>
      have own (jump : Kind) : escapes jump parent = false :=
        (escapes_of_redirectStmt jump success nowhere).trans (reached jump)
      exact Stmt.sameMeaning_of_agrees serves.falls
        (Stmt.agrees_of_contained own fun target _ => congrFun serves.goto target)
    | breaks goal => exact ⟨serves.breaks _ goal, rfl⟩
    | continues => exact ⟨serves.continues, rfl⟩
    | block all =>
      have inner := part rfl (List.Subset.refl _) all
      exact ⟨inner.meaning, inner.entries⟩
    | @branch _ _ _ elseBefore elseAfter thenAll elseAll =>
      have inThen := part rfl (List.subset_append_left _ _) thenAll
      have inElse : SameMeaning meant (elseAfter.getD []) (elseBefore.getD []) exits exits' := by
        cases elseAll with
        | none => exact ⟨serves.falls, rfl⟩
        | some all => exact part rfl (List.subset_append_right _ _) all
      constructor
      · rw [Stmt.meaning_branch, Stmt.meaning_branch, inThen.meaning, inElse.meaning]
      · rw [Stmt.entries_branch, Stmt.entries_branch, inThen.entries, inElse.entries]
    | @labeled label before after inner =>
      have member : before ∈ (Stmt.labeled label before).children := List.mem_singleton_self before
      have inside := ih before member inner (below rfl before member).1 (below rfl before member).2
        serves
      exact ⟨inside.meaning, congrArg₂ (fun first rest => (_, first) :: rest) inside.meaning
        inside.entries⟩

/-- The body of a loop means the same once its jumps are redirected. -/
theorem sameMeaning_of_redirect {body inner : List Stmt} (redirects : redirect targets body = .ok inner)
    (reached : ∀ statement ∈ body, ∀ jump, hidden jump statement = false)
    (nowhere : targets.breakTo = none → containsBreak body = false)
    (serves : Serves targets exits exits') : SameMeaning meant inner body exits exits' := by
  refine sameMeaning_of_redirectedAll (redirectedAll_of_redirect redirects) serves ?_
  intro statement member result success exits exits' serves
  refine sameMeaning_of_redirectStmt success (reached statement member) (fun missing => ?_) serves
  exact Bool.eq_false_iff.2 (List.any_eq_false.1 (nowhere missing) statement member)

end Redirect

end Unnest.Script
