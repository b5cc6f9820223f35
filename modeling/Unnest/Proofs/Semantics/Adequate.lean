import Unnest.Proofs.Semantics.Monotone

/-! The meaning of code is what its runs show. -/

namespace Unnest.Script

universe u

variable {σ : Type u} {meant : Interpretation σ}

section Around

/-- Where control goes when it leaves code that has the level around it. -/
def Exits.through (meant : Interpretation σ) (exits : Exits σ) : Level → Exits σ
  | .plain next => { exits with falls := meaning meant exits next }
  | .loop again after =>
    ⟨meaning meant exits again, meaning meant exits after, meaning meant exits again, exits.goto⟩
  | .switch after =>
    { exits with falls := meaning meant exits after, breaks := meaning meant exits after }

def Exits.around (meant : Interpretation σ) (exits : Exits σ) : List Level → Exits σ
  | [] => exits
  | level :: levels => (exits.around meant levels).through meant level

def Point.meaning (meant : Interpretation σ) (exits : Exits σ) : Point → Sights σ
  | .runs code levels => Script.meaning meant (exits.around meant levels) code
  | .ended ending => ends ending

/-- Where control goes when it leaves the code of a program. -/
def Program.exits (program : Program) (goto : String → Sights σ) : Exits σ :=
  ⟨ends program.atEnd, ends .stray, ends .stray, goto⟩

variable {program : Program} {goto : String → Sights σ}

theorem around_goto (exits : Exits σ) (levels : List Level) :
    (exits.around meant levels).goto = exits.goto := by
  induction levels with
  | nil => rfl
  | cons level levels ih => cases level <;> exact ih

theorem around_falls (levels : List Level) :
    ((program.exits goto).around meant levels).falls =
      (program.resume levels).meaning meant (program.exits goto) := by
  cases levels with
  | nil => rfl
  | cons level levels => cases level <;> rfl

theorem around_breaks (levels : List Level) :
    ((program.exits goto).around meant levels).breaks =
      (leave levels).meaning meant (program.exits goto) := by
  induction levels with
  | nil => rfl
  | cons level levels ih =>
    cases level with
    | plain => exact ih
    | loop | switch => rfl

theorem around_continues (levels : List Level) :
    ((program.exits goto).around meant levels).continues =
      (goOn levels).meaning meant (program.exits goto) := by
  induction levels with
  | nil => rfl
  | cons level levels ih =>
    cases level with
    | plain | switch => exact ih
    | loop => rfl

theorem meaning_stepped (exits : Exits σ) (iterator : Option Expr) (code : List Stmt) :
    meaning meant exits ((iterator.map Stmt.expression).toList ++ code) =
      stepped meant iterator (meaning meant exits code) := by
  cases iterator <;> rfl

theorem through_ofFor (exits : Exits σ) (condition iterator : Option Expr) (body rest : List Stmt) :
    exits.through meant (.ofFor condition iterator body rest) =
      Exits.within { exits with falls := meaning meant exits rest }
        (stepped meant iterator ((Stmt.forLoop .empty condition iterator body).meaning meant
          { exits with falls := meaning meant exits rest })) := by
  show Exits.mk _ _ _ _ = _
  rw [meaning_stepped]
  rfl

end Around

/-- What is seen of a step and of what comes after it. -/
def afterStep (value : Point → Sights σ) (state : σ) : Option σ × Point → Set (Sight σ)
  | (none, point) => value point state
  | (some state', point) => seen state' (value point)

section Tests

variable (program : Program) (value : Point → Sights σ) (state : σ) (levels : List Level)
  (rest : List Stmt)

/-- What is seen of a test that leads to one of two points. -/
theorem seen_ite (test : Expr) (yes no : Point) :
    seen (meant.evaluate test state).2
        (value (if (meant.evaluate test state).1 then yes else no)) =
      tested meant test (value yes) (value no) state :=
  congrArg (seen (meant.evaluate test state).2) (apply_ite value ..)

theorem afterStep_branch (test : Expr) (thenBody : List Stmt) (elseBody : Option (List Stmt)) :
    afterStep value state
        (program.next meant state levels (.branch test thenBody elseBody :: rest)) =
      tested meant test (value (.runs thenBody (.plain rest :: levels)))
        (value (.runs (elseBody.getD []) (.plain rest :: levels))) state :=
  congrArg (seen (meant.evaluate test state).2)
    (apply_ite (fun body => value (.runs body (.plain rest :: levels))) ..)

theorem afterStep_whileLoop (condition : Expr) (body : List Stmt) :
    afterStep value state (program.next meant state levels (.whileLoop condition body :: rest)) =
      tested meant condition (value (.runs body (.ofWhile condition body rest :: levels)))
        (value (.runs rest levels)) state :=
  seen_ite ..

/-- A loop whose initializer has run takes its test, if it has one. -/
theorem afterStep_forLoop (condition iterator : Option Expr) (body : List Stmt) :
    afterStep value state
        (program.next meant state levels (.forLoop .empty condition iterator body :: rest)) =
      guarded meant condition (value (.runs body (.ofFor condition iterator body rest :: levels)))
        (value (.runs rest levels)) state := by
  cases condition with
  | none => rfl
  | some condition => exact seen_ite ..

end Tests

section Shown

variable {program : Program}

/-- All that a run shows. -/
def Program.shown (program : Program) (meant : Interpretation σ) (point : Point) : Sights σ :=
  fun state => {sight | program.Shows meant point state sight}

/-- All that a run shows from a label. -/
def Program.shownFrom (program : Program) (meant : Interpretation σ) (label : String) : Sights σ :=
  program.shown meant (program.target label)

theorem shown_ended (ending : Ending) : program.shown meant (.ended ending) = ends ending := by
  funext state
  ext sight
  constructor
  · rintro ⟨⟩
    rfl
  · rintro rfl
    exact .ended

theorem shown_runs (code : List Stmt) (levels : List Level) (state : σ) :
    program.shown meant (.runs code levels) state =
      afterStep (program.shown meant) state (program.next meant state levels code) := by
  ext sight
  constructor
  · rintro (_ | ⟨step, shows⟩ | step | ⟨step, shows⟩)
    · rw [step]
      exact shows
    · rw [step]
      exact .inl rfl
    · rw [step]
      exact .inr ⟨_, shows, rfl⟩
  · intro member
    generalize found : program.next meant state levels code = move at member
    obtain ⟨state', point⟩ := move
    cases state' with
    | none => exact .silent found member
    | some state' =>
      obtain rfl | ⟨further, shows, rfl⟩ := member
      · exact .now found
      · exact .later found shows

variable {goto : String → Sights σ}

/-- The meaning of a point takes in what is seen of one step and the meaning of what follows. -/
theorem afterStep_subset (lands : ∀ target,
      (program.target target).meaning meant (program.exits goto) ≤ goto target)
    (code : List Stmt) (levels : List Level) (state : σ) :
    afterStep (Point.meaning meant (program.exits goto)) state
        (program.next meant state levels code) ⊆
      (Point.runs code levels).meaning meant (program.exits goto) state := by
  cases code with
  | nil => exact (congrFun (around_falls levels).symm state).subset
  | cons first rest =>
    cases first with
    | block body => exact le_rfl
    | labeled label body => exact le_rfl
    | branch test thenBody elseBody =>
      have whole : (Point.runs (.branch test thenBody elseBody :: rest) levels).meaning meant
          (program.exits goto) = _ := Stmt.meaning_branch ..
      rw [whole]
      exact (afterStep_branch ..).subset
    | whileLoop condition body =>
      have whole : (Point.runs (.whileLoop condition body :: rest) levels).meaning meant
          (program.exits goto) = _ := Stmt.meaning_whileLoop ..
      rw [whole]
      exact (afterStep_whileLoop ..).subset
    | doLoop body condition => exact le_rfl
    | forLoop init condition iterator body =>
      cases init with
      | empty =>
        have whole : (Point.runs (.forLoop .empty condition iterator body :: rest) levels).meaning
            meant (program.exits goto) = _ := Stmt.meaning_forLoop_round ..
        have inside : (Point.runs body (.ofFor condition iterator body rest :: levels)).meaning meant
            (program.exits goto) = _ :=
          congrArg (Script.meaning meant · body) (through_ofFor _ condition iterator body rest)
        rw [whole, afterStep_forLoop, inside]
        exact le_rfl
      | _ => exact le_rfl
    | breakJump label =>
      cases label with
      | none => exact (congrFun (around_breaks levels).symm state).subset
      | some label => exact le_rfl
    | continueJump label =>
      cases label with
      | none => exact (congrFun (around_continues levels).symm state).subset
      | some label => exact le_rfl
    | goto target =>
      rw [Point.meaning, meaning, Stmt.meaning, around_goto]
      exact lands target state
    | ret value => cases value <;> exact le_rfl
    | throw value => exact le_rfl
    | expression value => exact le_rfl
    | empty => exact le_rfl
    | switch discriminant cases =>
      apply seen_mono
      cases (meant.select discriminant (cases.map Case.test) state).1 with
      | none => exact le_rfl
      | some clause =>
        dsimp only
        rw [casesMeaning_eq]
        exact le_rfl
    | function name params body => exact le_rfl

/-- What is shown is part of every meaning that takes in what is shown at the labels. -/
theorem shown_le (lands : ∀ target,
      (program.target target).meaning meant (program.exits goto) ≤ goto target) (point : Point) :
    program.shown meant point ≤ point.meaning meant (program.exits goto) := by
  intro state sight shows
  induction shows with
  | ended => exact rfl
  | @silent code levels point state sight step shows ih =>
    have whole := afterStep_subset lands code levels state
    rw [step] at whole
    exact whole ih
  | @now code levels point state state' step =>
    have whole := afterStep_subset lands code levels state
    rw [step] at whole
    exact whole (.inl rfl)
  | @later code levels point state state' sight step shows ih =>
    have whole := afterStep_subset lands code levels state
    rw [step] at whole
    exact whole (.inr ⟨sight, ih, rfl⟩)

/-- What is shown where control leaves code that has the levels around it. -/
def Program.outside (program : Program) (meant : Interpretation σ) (levels : List Level) : Exits σ :=
  ⟨program.shown meant (program.resume levels), program.shown meant (leave levels),
    program.shown meant (goOn levels), program.shownFrom meant⟩

theorem shown_nil (levels : List Level) :
    program.shown meant (.runs [] levels) = program.shown meant (program.resume levels) := by
  funext state
  rw [shown_runs]
  rfl

theorem shown_stepped (iterator : Option Expr) (code : List Stmt) (levels : List Level) :
    program.shown meant (.runs ((iterator.map Stmt.expression).toList ++ code) levels) =
      stepped meant iterator (program.shown meant (.runs code levels)) := by
  cases iterator with
  | none => rfl
  | some value =>
    funext state
    exact shown_runs ..

theorem outside_ofFor (condition iterator : Option Expr) (body rest : List Stmt)
    (levels : List Level) : program.outside meant (.ofFor condition iterator body rest :: levels) =
      Exits.within
        { program.outside meant levels with falls := program.shown meant (.runs rest levels) }
        (stepped meant iterator (program.shown meant
          (.runs (.forLoop .empty condition iterator body :: rest) levels))) := by
  rw [← shown_stepped]
  rfl

theorem meaning_le_shown_of {code : List Stmt} {levels : List Level}
    (each : ∀ statement ∈ code, ∀ rest, statement.meaning meant
        { program.outside meant levels with falls := program.shown meant (.runs rest levels) } ≤
      program.shown meant (.runs (statement :: rest) levels)) :
    meaning meant (program.outside meant levels) code ≤ program.shown meant (.runs code levels) := by
  induction code with
  | nil => exact (shown_nil levels).ge
  | cons first rest ih =>
    have behind := ih fun statement member => each statement (List.mem_cons_of_mem _ member)
    exact (Stmt.meaning_mono behind (below_refl _ first).falling).trans
      (each first (List.mem_cons_self ..) rest)

theorem whileLoop_le_shown {condition : Expr} {body rest : List Stmt} {levels : List Level}
    (inside : meaning meant (program.outside meant (.ofWhile condition body rest :: levels)) body ≤
      program.shown meant (.runs body (.ofWhile condition body rest :: levels))) :
    (Stmt.whileLoop condition body).meaning meant
        { program.outside meant levels with falls := program.shown meant (.runs rest levels) } ≤
      program.shown meant (.runs (.whileLoop condition body :: rest) levels) := by
  refine rounds_le fun state => ?_
  rw [shown_runs, afterStep_whileLoop]
  exact tested_mono inside le_rfl state

theorem forLoop_le_shown {condition iterator : Option Expr} {body rest : List Stmt}
    {levels : List Level}
    (inside : meaning meant
        (program.outside meant (.ofFor condition iterator body rest :: levels)) body ≤
      program.shown meant (.runs body (.ofFor condition iterator body rest :: levels))) :
    (Stmt.forLoop .empty condition iterator body).meaning meant
        { program.outside meant levels with falls := program.shown meant (.runs rest levels) } ≤
      program.shown meant (.runs (.forLoop .empty condition iterator body :: rest) levels) := by
  rw [outside_ofFor] at inside
  rw [Stmt.meaning_forLoop_empty]
  refine rounds_le fun state => ?_
  rw [shown_runs, afterStep_forLoop]
  exact guarded_mono inside le_rfl state

theorem Stmt.meaning_le_shown (statement : Stmt) (rest : List Stmt) (levels : List Level) :
    statement.meaning meant
        { program.outside meant levels with falls := program.shown meant (.runs rest levels) } ≤
      program.shown meant (.runs (statement :: rest) levels) := by
  induction statement using Stmt.childInduction generalizing rest levels with
  | step parent ih =>
    have inside {body : List Stmt} (within : body ⊆ parent.children) (levels : List Level) :
        Script.meaning meant (program.outside meant levels) body ≤
          program.shown meant (.runs body levels) :=
      meaning_le_shown_of fun child member rest => ih child (within member) rest levels
    have unfolds : program.shown meant (.runs (parent :: rest) levels) = fun state =>
        afterStep (program.shown meant) state (program.next meant state levels (parent :: rest)) :=
      funext fun state => shown_runs _ _ state
    cases parent with
    | block body =>
      rw [unfolds]
      exact inside (List.Subset.refl _) (.plain rest :: levels)
    | labeled label body =>
      rw [unfolds]
      exact inside (List.Subset.refl _) (.plain rest :: levels)
    | branch test thenBody elseBody =>
      rw [Stmt.meaning_branch]
      intro state
      rw [shown_runs, afterStep_branch]
      exact tested_mono (inside (List.subset_append_left _ _) (.plain rest :: levels))
        (inside (List.subset_append_right _ _) (.plain rest :: levels)) state
    | whileLoop condition body =>
      exact whileLoop_le_shown (inside (List.Subset.refl _) _)
    | doLoop body condition =>
      have turns := whileLoop_le_shown
        (inside (List.Subset.refl body) (.ofWhile condition body rest :: levels))
      rw [unfolds]
      exact (within_mono _ body turns).trans
        (inside (List.Subset.refl _) (.ofWhile condition body rest :: levels))
    | forLoop init condition iterator body =>
      have turns := forLoop_le_shown
        (inside (List.subset_cons_self _ _) (.ofFor condition iterator body rest :: levels))
      have first := ih init (List.mem_cons_self ..) []
        (.plain (.forLoop .empty condition iterator body :: rest) :: levels)
      rw [shown_nil] at first
      have begins : (Stmt.forLoop init condition iterator body).meaning meant
          { program.outside meant levels with falls := program.shown meant (.runs rest levels) } ≤
            program.shown meant
              (.runs [init] (.plain (.forLoop .empty condition iterator body :: rest) :: levels)) := by
        rw [Stmt.meaning_forLoop]
        exact (Stmt.meaning_mono turns (below_refl _ init).falling).trans first
      cases init with
      | empty => exact turns
      | _ =>
        rw [unfolds]
        exact begins
    | breakJump label =>
      rw [unfolds]
      cases label with
      | none => exact le_rfl
      | some label => exact (shown_ended _).ge
    | continueJump label =>
      rw [unfolds]
      cases label with
      | none => exact le_rfl
      | some label => exact (shown_ended _).ge
    | goto target =>
      rw [unfolds]
      exact le_rfl
    | ret value =>
      rw [unfolds]
      cases value with
      | none => exact (shown_ended _).ge
      | some value => exact act_mono (shown_ended _).ge
    | throw value =>
      rw [unfolds]
      exact act_mono (shown_ended _).ge
    | expression value =>
      rw [unfolds]
      exact le_rfl
    | empty =>
      rw [unfolds]
      exact le_rfl
    | switch discriminant cases =>
      rw [unfolds]
      intro state
      apply seen_mono
      cases (meant.select discriminant (cases.map Case.test) state).1 with
      | none => exact le_rfl
      | some clause =>
        dsimp only
        rw [casesMeaning_eq]
        exact inside (clauses_subset cases clause) (.switch rest :: levels) _
    | function name params body =>
      rw [unfolds]
      exact le_rfl

/-- What code around the code shows is at least what it means. -/
theorem around_under_outside (levels : List Level) :
    ((program.exits (program.shownFrom meant)).around meant levels).Under
      (program.outside meant levels) := by
  have shows {levels : List Level} (code : List Stmt)
      (under : ((program.exits (program.shownFrom meant)).around meant levels).Under
        (program.outside meant levels)) :
      meaning meant ((program.exits (program.shownFrom meant)).around meant levels) code ≤
        program.shown meant (.runs code levels) :=
    (under.meaning_le code).trans
      (meaning_le_shown_of fun statement _ rest => statement.meaning_le_shown rest levels)
  induction levels with
  | nil => exact ⟨(shown_ended _).ge, (shown_ended _).ge, (shown_ended _).ge, fun _ => le_rfl⟩
  | cons level levels ih =>
    cases level with
    | plain next => exact ⟨shows next ih, ih.breaks, ih.continues, ih.goto⟩
    | loop again after => exact ⟨shows again ih, shows after ih, shows again ih, ih.goto⟩
    | switch after => exact ⟨shows after ih, shows after ih, ih.continues, ih.goto⟩

theorem Point.meaning_le_shown (point : Point) :
    point.meaning meant (program.exits (program.shownFrom meant)) ≤ program.shown meant point := by
  cases point with
  | runs code levels =>
    exact ((around_under_outside levels).meaning_le code).trans
      (meaning_le_shown_of fun statement _ rest => statement.meaning_le_shown rest levels)
  | ended ending => exact (shown_ended ending).ge

/-- A run shows what the code means in which it starts. -/
theorem shown_eq_meaning (point : Point) :
    program.shown meant point = point.meaning meant (program.exits (program.shownFrom meant)) :=
  (shown_le (fun _ => Point.meaning_le_shown _) point).antisymm point.meaning_le_shown

end Shown

section Places

/-- What is shown from a label. -/
def shownAt (meant : Interpretation σ) (exits : Exits σ) (place : String × Point) :
    String × Sights σ :=
  (place.1, place.2.meaning meant exits)

variable {exits : Exits σ}

theorem entries_around_of {code : List Stmt} {levels : List Level}
    (each : ∀ statement ∈ code, ∀ rest, statement.entries meant
        { exits.around meant levels with falls := meaning meant (exits.around meant levels) rest } =
      (statement.places rest levels).map (shownAt meant exits)) :
    entries meant (exits.around meant levels) code =
      (places levels code).map (shownAt meant exits) := by
  induction code with
  | nil => rfl
  | cons first rest ih =>
    rw [entries, places, List.map_append, each first (List.mem_cons_self ..),
      ih fun statement member => each statement (List.mem_cons_of_mem _ member)]

theorem Stmt.entries_around (statement : Stmt) (rest : List Stmt) (levels : List Level) :
    statement.entries meant { exits.around meant levels with
        falls := Script.meaning meant (exits.around meant levels) rest } =
      (statement.places rest levels).map (shownAt meant exits) := by
  induction statement using Stmt.childInduction generalizing rest levels with
  | step parent ih =>
    have inside {body : List Stmt} (within : body ⊆ parent.children) (levels : List Level) :
        Script.entries meant (exits.around meant levels) body =
          (Script.places levels body).map (shownAt meant exits) :=
      entries_around_of fun child member rest => ih child (within member) rest levels
    cases parent with
    | block body => exact inside (List.Subset.refl _) (.plain rest :: levels)
    | labeled label body =>
      exact congrArg (_ :: ·) (ih body (List.mem_singleton_self _) [] (.plain rest :: levels))
    | branch test thenBody elseBody =>
      cases elseBody with
      | none => exact inside (List.subset_append_left _ _) (.plain rest :: levels)
      | some elseBody =>
        rw [Stmt.entries, Stmt.places, List.map_append]
        exact congrArg₂ (· ++ ·) (inside (List.subset_append_left _ _) (.plain rest :: levels))
          (inside (List.subset_append_right _ _) (.plain rest :: levels))
    | whileLoop condition body =>
      exact inside (List.Subset.refl _) (.ofWhile condition body rest :: levels)
    | doLoop body condition =>
      exact inside (List.Subset.refl _) (.ofWhile condition body rest :: levels)
    | forLoop init condition iterator body =>
      rw [Stmt.entries, Stmt.places, List.map_append]
      have inBody := inside (List.subset_cons_self _ _) (.ofFor condition iterator body rest :: levels)
      rw [Exits.around, through_ofFor] at inBody
      exact congrArg₂ (· ++ ·) (ih init (List.mem_cons_self ..) []
        (.plain (.forLoop .empty condition iterator body :: rest) :: levels)) inBody
    | switch discriminant cases =>
      have clauses {rest : List Stmt} {part : List Case}
          (within : part.flatMap Case.body ⊆ cases.flatMap Case.body) :
          caseEntries meant (exits.around meant (.switch rest :: levels)) part =
            (casePlaces (.switch rest :: levels) part).map (shownAt meant exits) := by
        induction part with
        | nil => rfl
        | cons clause others again =>
          obtain ⟨test, body⟩ := clause
          rw [List.flatMap_cons, List.append_subset] at within
          rw [caseEntries, casePlaces, List.map_append, again within.2, casesMeaning_eq,
            List.drop_zero]
          exact congrArg (· ++ _) (inside within.1
            (.plain (others.flatMap Case.body) :: .switch rest :: levels))
      exact clauses (List.Subset.refl _)
    | _ => rfl

/-- The entries of a body are its places, each with what its point means. -/
theorem entries_eq_places (body : List Stmt) :
    entries meant exits body = (places [] body).map (shownAt meant exits) := by
  have whole : entries meant (exits.around meant []) body =
      (places [] body).map (shownAt meant exits) :=
    entries_around_of fun statement _ rest => statement.entries_around rest []
  exact whole

end Places

end Unnest.Script
