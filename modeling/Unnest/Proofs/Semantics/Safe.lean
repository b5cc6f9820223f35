import Unnest.Proofs.BlockCheck.Sound
import Unnest.Proofs.Flatten.NamedJumps
import Unnest.Proofs.Semantics.Execution
import Unnest.Proofs.Semantics.Jumps

/-! Blocks that pass the check never get stuck. Which ways lead out of code is read off its
text, and what is around the code says which of these ways are open. A step of a run keeps to
the open ways, so that a run ends at the exit, with a return or with a throw. -/

namespace Unnest.Script
open Flatten

universe u

/-- The ways out of code that control may take. -/
structure Ways where
  falls : Prop
  breaks : Prop
  continues : Prop

/-- Control leaves the statement by open ways only, and its gotos lead to known names. -/
structure Stmt.Keeps (known : String → Prop) (ways : Ways) (statement : Stmt) : Prop where
  jumps : statement.Jumps ways.breaks ways.continues known
  unnamed : Unnamed statement

/-- Control leaves the code by open ways only, and its gotos lead to known names. -/
structure Fits (known : String → Prop) (ways : Ways) (code : List Stmt) : Prop where
  falls : fallsThrough code = true → ways.falls
  keeps : ∀ statement ∈ code, statement.Keeps known ways

/-- The ways out of code that has the level around it. -/
def Ways.through (known : String → Prop) (ways : Ways) : Level → Ways
  | .plain next => { ways with falls := Fits known ways next }
  | .loop again after => ⟨Fits known ways again, Fits known ways after, Fits known ways again⟩
  | .switch after => { ways with falls := Fits known ways after, breaks := Fits known ways after }

/-- The ways out of code with these levels around it. Nothing leads out of a whole block. -/
def Ways.around (known : String → Prop) : List Level → Ways
  | [] => ⟨False, False, False⟩
  | level :: levels => (around known levels).through known level

/-- The run has come to its end and is not stuck. -/
inductive Ending.Proper : Ending → Prop where
  | left : Proper .left
  | returned (value : Option Expr) : Proper (.returned value)
  | threw (value : Expr) : Proper (.threw value)

/-- Nothing that control may meet from here on gets it stuck. -/
def Point.Safe (known : String → Prop) : Point → Prop
  | .runs code levels => Fits known (.around known levels) code
  | .ended ending => ending.Proper

section Fits

variable {known : String → Prop} {ways : Ways} {first child parent : Stmt}
  {code body rest : List Stmt}

theorem Stmt.Keeps.below (keeps : parent.Keeps known ways) (member : child ∈ parent.children) :
    Unnamed child :=
  (unnamed_iff.1 keeps.unnamed).2 child member

theorem Stmt.Keeps.falling {falls : Prop} (keeps : parent.Keeps known ways) :
    parent.Keeps known { ways with falls } :=
  ⟨keeps.jumps, keeps.unnamed⟩

theorem Stmt.Keeps.part (keeps : parent.Keeps known ways) (member : child ∈ parent.children)
    (passes : ∀ jump, child ∈ passing jump parent) : child.Keeps known ways :=
  ⟨keeps.jumps.part member passes, keeps.below member⟩

theorem Fits.behind (fits : Fits known ways (first :: rest)) (falls : first.fallsThrough = true) :
    Fits known ways rest where
  falls open_ := by
    apply fits.falls
    cases rest with
    | nil => rwa [fallsThrough]
    | cons second rest => rwa [fallsThrough]
  keeps statement member := fits.keeps statement (List.mem_cons_of_mem _ member)

/-- Another statement may stand in the place of the first if it keeps to the same ways. -/
theorem Fits.replace {other : Stmt} (fits : Fits known ways (first :: rest))
    (falls : first.fallsThrough = true) (keeps : other.Keeps known ways) :
    Fits known ways (other :: rest) where
  falls open_ := by
    cases rest with
    | nil =>
      apply fits.falls
      rwa [fallsThrough]
    | cons second rest =>
      apply fits.falls
      rwa [fallsThrough] at open_ ⊢
  keeps := List.forall_mem_cons.2 ⟨keeps, (List.forall_mem_cons.1 fits.keeps).2⟩

/-- Code inside the first statement, from whose end control goes on behind the statement. -/
theorem Fits.inside (fits : Fits known ways (parent :: rest)) (within : code ⊆ parent.children)
    (passes : ∀ jump, code ⊆ passing jump parent)
    (falls : fallsThrough code = true → parent.fallsThrough = true) :
    Fits known (ways.through known (.plain rest)) code where
  falls open_ := fits.behind (falls open_)
  keeps _ member :=
    ((fits.keeps parent (List.mem_cons_self ..)).part (within member)
      fun jump => passes jump member).falling

/-- The body of a loop, from whose end control goes to code that fits. -/
theorem Fits.looped {again : List Stmt} (fits : Fits known ways (parent :: rest))
    (falls : parent.fallsThrough = true) (within : body ⊆ parent.children)
    (rounds : Fits known ways again) :
    Fits known (ways.through known (.loop again rest)) body where
  falls _ := rounds
  keeps _ member :=
    have keeps := fits.keeps parent (List.mem_cons_self ..)
    ⟨keeps.jumps.within (within member) (fits.behind falls) rounds, keeps.below (within member)⟩

theorem fits_expression {value : Expr} (fits : Fits known ways rest) :
    Fits known ways (.expression value :: rest) where
  falls open_ := by
    cases rest with
    | nil => exact fits.falls rfl
    | cons second rest =>
      apply fits.falls
      rwa [fallsThrough] at open_
  keeps := by
    have stays (jump : Kind) : escapes jump (.expression value) = false := by
      rw [escapes_eq]
      rfl
    have unnamed : (Stmt.expression value).namedJump = none :=
      (unnamed_of_children rfl).2 fun _ member => absurd member List.not_mem_nil
    refine List.forall_mem_cons.2 ⟨⟨⟨?_, ?_, ?_⟩, unnamed⟩, fits.keeps⟩
    · intro escaped
      rw [stays] at escaped
      cases escaped
    · intro escaped
      rw [stays] at escaped
      cases escaped
    · simp

/-- A loop that goes on behind its first round, or behind its initializer. -/
theorem Stmt.Keeps.doLoop {condition : Expr} (keeps : (Stmt.doLoop body condition).Keeps known ways) :
    (Stmt.whileLoop condition body).Keeps known ways :=
  ⟨keeps.jumps.doLoop, (unnamed_of_children rfl).2 fun _ member => keeps.below member⟩

theorem Stmt.Keeps.forLoop {init : Stmt} {condition iterator : Option Expr}
    (keeps : (Stmt.forLoop init condition iterator body).Keeps known ways) :
    (Stmt.forLoop .empty condition iterator body).Keeps known ways := by
  refine ⟨keeps.jumps.forLoop, (unnamed_of_children rfl).2 (List.forall_mem_cons.2 ⟨?_, ?_⟩)⟩
  · exact (unnamed_of_children rfl).2 nofun
  · exact fun _ member => keeps.below (List.mem_cons_of_mem _ member)

/-- The iterator runs, if there is one, and then the loop again. -/
theorem Fits.stepped {init : Stmt} {condition iterator : Option Expr}
    (fits : Fits known ways (.forLoop init condition iterator body :: rest)) :
    Fits known ways
      ((iterator.map Stmt.expression).toList ++ .forLoop .empty condition iterator body :: rest) := by
  have loop := fits.replace rfl (fits.keeps _ (List.mem_cons_self ..)).forLoop
  cases iterator with
  | none => exact loop
  | some value => exact fits_expression loop

end Fits

section Step

variable {σ : Type u} {meant : Interpretation σ} {known : String → Prop} {exitLabel : String}
  {blocks : List LabeledBlock} {levels : List Level}

theorem safe_resume (falls : (Ways.around known levels).falls) :
    ((dispatched exitLabel blocks).resume levels).Safe known := by
  cases levels with
  | nil => exact falls.elim
  | cons level levels => cases level <;> exact falls

theorem safe_leave (breaks : (Ways.around known levels).breaks) : (leave levels).Safe known := by
  induction levels with
  | nil => exact breaks.elim
  | cons level levels ih =>
    cases level with
    | plain next => exact ih breaks
    | loop | switch => exact breaks

theorem safe_goOn (continues : (Ways.around known levels).continues) :
    (goOn levels).Safe known := by
  induction levels with
  | nil => exact continues.elim
  | cons level levels ih =>
    cases level with
    | plain | switch => exact ih continues
    | loop => exact continues

/-- A step from a safe point leads to a safe point, as long as gotos do. -/
theorem safe_next {code : List Stmt} (state : σ)
    (lands : ∀ target, known target → ((dispatched exitLabel blocks).target target).Safe known)
    (safe : Point.Safe known (.runs code levels)) :
    ((dispatched exitLabel blocks).next meant state levels code).2.Safe known := by
  cases code with
  | nil => exact safe_resume (safe.falls rfl)
  | cons first rest =>
    have fits : Fits known (.around known levels) (first :: rest) := safe
    have keeps := fits.keeps first (List.mem_cons_self ..)
    cases first with
    | block body =>
      exact fits.inside (List.Subset.refl _) (fun _ => List.Subset.refl _)
        fun open_ => by rwa [Stmt.fallsThrough]
    | labeled label body =>
      exact fits.inside (List.Subset.refl _) (fun _ => List.Subset.refl _) fun _ => rfl
    | branch test thenBody elseBody =>
      dsimp only [Program.next]
      split
      · apply fits.inside (List.subset_append_left _ _) fun _ => List.subset_append_left _ _
        intro open_
        rw [fallsThrough_branch, open_, Bool.true_or]
      · apply fits.inside (List.subset_append_right _ _) fun _ => List.subset_append_right _ _
        intro open_
        rw [fallsThrough_branch, open_, Bool.or_true]
    | whileLoop condition body =>
      dsimp only [Program.next]
      split
      · exact fits.looped rfl (List.Subset.refl _) fits
      · exact fits.behind rfl
    | doLoop body condition =>
      exact fits.looped rfl (List.Subset.refl _) (fits.replace rfl keeps.doLoop)
    | forLoop init condition iterator body =>
      have inBody : body ⊆ (Stmt.forLoop init condition iterator body).children :=
        List.subset_cons_self _ _
      by_cases begun : init = .empty
      · subst begun
        cases condition with
        | none => exact fits.looped rfl inBody fits.stepped
        | some condition =>
          dsimp only [Program.next]
          split
          · exact fits.looped rfl inBody fits.stepped
          · exact fits.behind rfl
      · rw [Program.next_forLoop begun]
        have part := keeps.part (List.mem_cons_self ..) fun _ => List.mem_cons_self ..
        exact ⟨fun _ => fits.replace rfl keeps.forLoop, List.forall_mem_singleton.2 part.falling⟩
    | breakJump label =>
      cases label with
      | none => exact safe_leave (keeps.jumps.breaks (escapes_eq ..))
      | some label => exact absurd (unnamed_iff.1 keeps.unnamed).1 (Option.some_ne_none _)
    | continueJump label =>
      cases label with
      | none => exact safe_goOn (keeps.jumps.continues (escapes_eq ..))
      | some label => exact absurd (unnamed_iff.1 keeps.unnamed).1 (Option.some_ne_none _)
    | goto target => exact lands target (keeps.jumps.goto target (by simp))
    | ret value => cases value <;> exact .returned _
    | throw value => exact .threw value
    | expression | empty | function => exact fits.behind rfl
    | switch discriminant cases =>
      dsimp only [Program.next]
      split
      · exact fits.behind rfl
      · next clause _ =>
        have within := clauses_subset cases clause
        refine ⟨fun _ => fits.behind rfl, fun child member => ⟨?_, keeps.below (within member)⟩⟩
        exact keeps.jumps.clause (within member) (fits.behind rfl)

theorem safe_step {place : Point × σ}
    (lands : ∀ target, known target → ((dispatched exitLabel blocks).target target).Safe known)
    (safe : place.1.Safe known) : ((dispatched exitLabel blocks).step meant place).1.Safe known := by
  obtain ⟨point, state⟩ := place
  cases point with
  | ended ending => exact safe
  | runs code levels => exact safe_next state lands safe

/-- A run from a safe point only ever comes to safe points. -/
theorem safe_steps {place : Point × σ} (steps : Nat)
    (lands : ∀ target, known target → ((dispatched exitLabel blocks).target target).Safe known)
    (safe : place.1.Safe known) :
    (((dispatched exitLabel blocks).step meant)^[steps] place).1.Safe known := by
  induction steps generalizing place with
  | zero => exact safe
  | succ steps ih => exact ih (safe_step lands safe)

end Step

section Checked

variable {blocks : List LabeledBlock} {exitLabel : String}

/-- The gotos of checked blocks lead to the exit and to names that one block has. -/
def Named (blocks : List LabeledBlock) (exitLabel target : String) : Prop :=
  target = exitLabel ∨ (blocks.map LabeledBlock.name).count target = 1

theorem safe_block (passes : BlockCheck.check blocks exitLabel = .ok ())
    (contained : ∀ block ∈ blocks, ∀ statement ∈ block.statements, ∀ jump,
      escapes jump statement = false)
    (unnamed : ∀ block ∈ blocks, ∀ statement ∈ block.statements, statement.namedJump = none)
    {block : LabeledBlock} (member : block ∈ blocks) :
    (Point.runs block.statements []).Safe (Named blocks exitLabel) := by
  obtain ⟨sound, leads⟩ := BlockCheck.check_ok_iff.1 passes
  refine ⟨fun open_ => ?_, fun statement inside => ⟨⟨?_, ?_, ?_⟩, unnamed block member statement inside⟩⟩
  · rw [sound.closed block member] at open_
    cases open_
  · rw [contained block member statement inside]
    nofun
  · rw [contained block member statement inside]
    nofun
  · intro target goes
    have produced := leads block member target (mem_gotoTargets.2 ⟨statement, inside, goes⟩)
    exact produced.imp_right (List.count_eq_one_of_mem sound.distinct)

theorem safe_target (safe : ∀ block ∈ blocks,
      (Point.runs block.statements []).Safe (Named blocks exitLabel)) (target : String)
    (named : Named blocks exitLabel target) :
    ((dispatched exitLabel blocks).target target).Safe (Named blocks exitLabel) := by
  dsimp only [dispatched]
  split
  · exact .left
  · next other =>
    have produced := List.count_pos_iff.1 (Nat.lt_of_lt_of_eq Nat.zero_lt_one
      (named.resolve_left other).symm)
    obtain ⟨block, member, name⟩ := List.mem_map.1 produced
    cases found : blocks.find? fun block => block.name == target with
    | none => simpa [name] using List.find?_eq_none.1 found block member
    | some first => exact safe first (List.mem_of_find?_eq_some found)

/-- A dispatch machine that runs checked blocks, each of whose jumps belongs to a loop or a
switch of its block, never gets stuck: it falls off the end of no block, its gotos lead to the
exit or to the one block of that name, and when it ends, then at the exit, with a return or with
a throw. -/
theorem steps_of_check {σ : Type u} (passes : BlockCheck.check blocks exitLabel = .ok ())
    (contained : ∀ block ∈ blocks, ∀ statement ∈ block.statements, ∀ jump,
      escapes jump statement = false)
    (unnamed : ∀ block ∈ blocks, ∀ statement ∈ block.statements, statement.namedJump = none)
    {block : LabeledBlock} (member : block ∈ blocks) (meant : Interpretation σ)
    (start final : σ) (steps : Nat) (point : Point)
    (runs : ((dispatched exitLabel blocks).step meant)^[steps] (.runs block.statements [], start) =
      (point, final)) :
    point ≠ .runs [] [] ∧
      (∀ target rest levels, point = .runs (.goto target :: rest) levels →
        target = exitLabel ∨ (blocks.map LabeledBlock.name).count target = 1) ∧
      ∀ ending, point = .ended ending → ending.Proper := by
  have blockSafe : ∀ block ∈ blocks, _ := fun _ => safe_block passes contained unnamed
  have safe : ((((dispatched exitLabel blocks).step meant)^[steps])
      (.runs block.statements [], start)).1.Safe (Named blocks exitLabel) :=
    safe_steps steps (safe_target blockSafe) (blockSafe block member)
  rw [runs] at safe
  refine ⟨?_, ?_, ?_⟩
  · rintro rfl
    exact safe.falls rfl
  · rintro target rest levels rfl
    exact (safe.keeps _ (List.mem_cons_self ..)).jumps.goto target (by simp)
  · rintro ending rfl
    exact safe

/-- Every expression counts, and holds until two have run. -/
def counting : Interpretation Nat where
  evaluate _ count := (count < 2, count + 1)
  select _ _ count := (none, count)
  declare _ _ _ count := count

theorem steps_of_check_loop :
    ((dispatched "$exit" [⟨"A", [.whileLoop (.identifier "more")
        [.ifThen (.identifier "odd") [.breakJump none]], .goto "B"]⟩, ⟨"B", [.ret none]⟩]).step
          counting)^[5]
        (.runs [.whileLoop (.identifier "more") [.ifThen (.identifier "odd") [.breakJump none]],
          .goto "B"] [], 0) = (.ended (.returned none), 2) ∧
      (Ending.returned none).Proper := by
  have runs : ((dispatched "$exit" [⟨"A", [.whileLoop (.identifier "more")
      [.ifThen (.identifier "odd") [.breakJump none]], .goto "B"]⟩, ⟨"B", [.ret none]⟩]).step
        counting)^[5]
      (.runs [.whileLoop (.identifier "more") [.ifThen (.identifier "odd") [.breakJump none]],
        .goto "B"] [], 0) = (.ended (.returned none), 2) := rfl
  have passes : BlockCheck.check [⟨"A", [.whileLoop (.identifier "more")
      [.ifThen (.identifier "odd") [.breakJump none]], .goto "B"]⟩, ⟨"B", [.ret none]⟩] "$exit" =
        .ok () := by cbv
  refine ⟨runs, (steps_of_check passes ?_ ?_ (List.mem_cons_self ..) counting 0 2 5 _ runs).2.2 _ rfl⟩
  · have leaf (statement : Stmt) (own : ownJump statement = none) (jump : Kind)
        (inside : passing jump statement = []) : escapes jump statement = false := by
      rw [escapes_eq, own, inside]
      rfl
    simp only [List.forall_mem_cons, List.not_mem_nil, false_imp_iff, implies_true, and_true]
    exact ⟨⟨fun jump => leaf _ rfl jump rfl, fun jump => leaf _ rfl jump rfl⟩,
      fun jump => leaf _ rfl jump rfl⟩
  · simp [Stmt.namedJump_eq, Stmt.ifThen, Stmt.children, Stmt.ownNamedJump]

end Checked

end Unnest.Script
