import Mathlib
import Unnest.Proofs.Semantics.Execution
import Unnest.Script.FallThrough

/-! What code means, read off its parts: a map from what a run shows once control has left the
code to what it shows from the start of the code. A loop means the least solution of its own
equation, so that a loop that never does anything shows nothing. -/

namespace Unnest.Script

universe u

variable {σ : Type u}

/-- What runs show from each state. -/
abbrev Sights (σ : Type u) := σ → Set (Sight σ)

/-- Where control goes when it leaves code. -/
structure Exits (σ : Type u) where
  falls : Sights σ
  breaks : Sights σ
  continues : Sights σ
  goto : String → Sights σ

def ends (ending : Ending) : Sights σ := fun _ => {⟨[], some ending⟩}

/-- A state is seen, and then whatever a run shows from there. -/
def seen (state : σ) (next : Sights σ) : Set (Sight σ) :=
  {sight | sight = ⟨[state], none⟩ ∨
    ∃ further ∈ next state, sight = ⟨state :: further.states, further.ending⟩}

def act (step : σ → σ) (next : Sights σ) : Sights σ := fun state => seen (step state) next

section Meaning

variable (meant : Interpretation σ)

def tested (test : Expr) (yes no : Sights σ) : Sights σ := fun state =>
  seen (meant.evaluate test state).2 (if (meant.evaluate test state).1 then yes else no)

/-- Without a test, control goes on. -/
def guarded : Option Expr → Sights σ → Sights σ → Sights σ
  | none, yes, _ => yes
  | some test, yes, no => tested meant test yes no

/-- The iterator runs, if there is one. -/
def stepped : Option Expr → Sights σ → Sights σ
  | none, next => next
  | some value, next => act (fun state => (meant.evaluate value state).2) next

def least (equation : Sights σ → Sights σ) : Sights σ := sInf {sights | equation sights ≤ sights}

/-- The rounds of a loop, from the test on. The body goes on with what it is given. -/
def rounds (test iterator : Option Expr) (body : Sights σ → Sights σ) (after : Sights σ) :
    Sights σ :=
  least fun top => guarded meant test (body (stepped meant iterator top)) after

/-- Inside the body of a loop, which breaks out of it and continues at the end of the body. -/
def Exits.within (exits : Exits σ) (again : Sights σ) : Exits σ :=
  ⟨again, exits.falls, again, exits.goto⟩

mutual

def Stmt.meaning (exits : Exits σ) : Stmt → Sights σ
  | .block body => meaning exits body
  | .branch test thenBody none => tested meant test (meaning exits thenBody) exits.falls
  | .branch test thenBody (some elseBody) =>
    tested meant test (meaning exits thenBody) (meaning exits elseBody)
  | .whileLoop condition body =>
    rounds meant (some condition) none (fun again => meaning (exits.within again) body) exits.falls
  | .doLoop body condition =>
    meaning (exits.within
      (rounds meant (some condition) none (fun again => meaning (exits.within again) body)
        exits.falls)) body
  | .forLoop init condition iterator body =>
    init.meaning { exits with
      falls := rounds meant condition iterator (fun again => meaning (exits.within again) body)
        exits.falls }
  | .labeled _ body => body.meaning exits
  | .breakJump none => exits.breaks
  | .continueJump none => exits.continues
  | .breakJump (some _) => ends .stray
  | .continueJump (some _) => ends .stray
  | .goto target => exits.goto target
  | .ret none => ends (.returned none)
  | .ret (some value) =>
    act (fun state => (meant.evaluate value state).2) (ends (.returned (some value)))
  | .throw value => act (fun state => (meant.evaluate value state).2) (ends (.threw value))
  | .expression value => act (fun state => (meant.evaluate value state).2) exits.falls
  | .empty => exits.falls
  | .switch discriminant cases => fun state =>
    seen (meant.select discriminant (cases.map Case.test) state).2
      (match (meant.select discriminant (cases.map Case.test) state).1 with
        | none => exits.falls
        | some clause => casesMeaning { exits with breaks := exits.falls } cases clause)
  | .function name params body => act (meant.declare name params body) exits.falls

def meaning (exits : Exits σ) : List Stmt → Sights σ
  | [] => exits.falls
  | first :: rest => first.meaning { exits with falls := meaning exits rest }

/-- The clauses of a switch from the given one on. -/
def casesMeaning (exits : Exits σ) : List Case → Nat → Sights σ
  | [], _ => exits.falls
  | .clause _ body :: rest, 0 => meaning { exits with falls := casesMeaning exits rest 0 } body
  | .clause _ _ :: rest, clause + 1 => casesMeaning exits rest clause

end

mutual

/-- The labels in a statement, with what a run shows from each. -/
def Stmt.entries (exits : Exits σ) : Stmt → List (String × Sights σ)
  | .labeled label body => (label, body.meaning meant exits) :: body.entries exits
  | .block body => entries exits body
  | .branch _ thenBody none => entries exits thenBody
  | .branch _ thenBody (some elseBody) => entries exits thenBody ++ entries exits elseBody
  | .whileLoop condition body =>
    entries (exits.within ((Stmt.whileLoop condition body).meaning meant exits)) body
  | .doLoop body condition =>
    entries (exits.within ((Stmt.whileLoop condition body).meaning meant exits)) body
  | .forLoop init condition iterator body =>
    init.entries { exits with
      falls := (Stmt.forLoop .empty condition iterator body).meaning meant exits } ++
    entries (exits.within (stepped meant iterator
      ((Stmt.forLoop .empty condition iterator body).meaning meant exits))) body
  | .switch _ cases => caseEntries { exits with breaks := exits.falls } cases
  | _ => []

def entries (exits : Exits σ) : List Stmt → List (String × Sights σ)
  | [] => []
  | first :: rest =>
    first.entries { exits with falls := meaning meant exits rest } ++ entries exits rest

def caseEntries (exits : Exits σ) : List Case → List (String × Sights σ)
  | [] => []
  | .clause _ body :: rest =>
    entries { exits with falls := casesMeaning meant exits rest 0 } body ++ caseEntries exits rest

end

end Meaning

section Order

variable {meant : Interpretation σ} {yes yes' no no' : Sights σ}

theorem seen_mono {state : σ} (below : yes state ⊆ yes' state) : seen state yes ⊆ seen state yes' := by
  rintro sight (now | ⟨further, shown, later⟩)
  · exact .inl now
  · exact .inr ⟨further, below shown, later⟩

theorem act_mono {step : σ → σ} (below : yes ≤ yes') : act step yes ≤ act step yes' :=
  fun _ => seen_mono (below _)

theorem tested_mono {test : Expr} (belowYes : yes ≤ yes') (belowNo : no ≤ no') :
    tested meant test yes no ≤ tested meant test yes' no' := by
  intro state
  apply seen_mono
  by_cases holds : (meant.evaluate test state).1 = true
  · rw [if_pos holds, if_pos holds]
    exact belowYes _
  · rw [if_neg holds, if_neg holds]
    exact belowNo _

theorem guarded_mono {test : Option Expr} (belowYes : yes ≤ yes') (belowNo : no ≤ no') :
    guarded meant test yes no ≤ guarded meant test yes' no' := by
  cases test with
  | none => exact belowYes
  | some test => exact tested_mono belowYes belowNo

theorem stepped_mono {iterator : Option Expr} (below : yes ≤ yes') :
    stepped meant iterator yes ≤ stepped meant iterator yes' := by
  cases iterator with
  | none => exact below
  | some value => exact act_mono below

/-- A negated test goes the other way. -/
theorem tested_negate (negates : meant.Negates) (test : Expr) (yes no : Sights σ) :
    tested meant test.negate yes no = tested meant test no yes := by
  funext state
  unfold tested
  rw [negates]
  cases (meant.evaluate test state).1 <;> rfl

theorem least_le {equation : Sights σ → Sights σ} {sights : Sights σ}
    (closed : equation sights ≤ sights) : least equation ≤ sights :=
  sInf_le closed

theorem least_eq {equation : Sights σ → Sights σ} (mono : Monotone equation) :
    equation (least equation) = least equation :=
  OrderHom.map_lfp ⟨equation, mono⟩

theorem rounds_le {test iterator : Option Expr} {body : Sights σ → Sights σ} {after top : Sights σ}
    (closed : guarded meant test (body (stepped meant iterator top)) after ≤ top) :
    rounds meant test iterator body after ≤ top :=
  least_le closed

/-- A loop is one round and then the loop again. -/
theorem rounds_eq {test iterator : Option Expr} {body : Sights σ → Sights σ} {after : Sights σ}
    (mono : Monotone body) : rounds meant test iterator body after =
      guarded meant test
        (body (stepped meant iterator (rounds meant test iterator body after))) after :=
  (least_eq fun _ _ below => guarded_mono (mono (stepped_mono below)) le_rfl).symm

theorem rounds_mono {test iterator : Option Expr} {body body' : Sights σ → Sights σ}
    {after after' : Sights σ} (belowBody : ∀ again, body again ≤ body' again)
    (belowAfter : after ≤ after') :
    rounds meant test iterator body after ≤ rounds meant test iterator body' after' :=
  sInf_le_sInf fun _ closed => (guarded_mono (belowBody _) belowAfter).trans closed

end Order

section Parts

variable (meant : Interpretation σ) (exits : Exits σ)

theorem Stmt.meaning_branch (test : Expr) (thenBody : List Stmt) (elseBody : Option (List Stmt)) :
    (Stmt.branch test thenBody elseBody).meaning meant exits =
      tested meant test (Script.meaning meant exits thenBody)
        (Script.meaning meant exits (elseBody.getD [])) := by
  cases elseBody <;> rfl

theorem Stmt.entries_branch (test : Expr) (thenBody : List Stmt) (elseBody : Option (List Stmt)) :
    (Stmt.branch test thenBody elseBody).entries meant exits =
      Script.entries meant exits thenBody ++ Script.entries meant exits (elseBody.getD []) := by
  cases elseBody with
  | none => exact (List.append_nil _).symm
  | some elseBody => rfl

theorem Stmt.meaning_forLoop (init : Stmt) (condition iterator : Option Expr) (body : List Stmt) :
    (Stmt.forLoop init condition iterator body).meaning meant exits =
      init.meaning meant { exits with
        falls := rounds meant condition iterator
          (fun again => Script.meaning meant (exits.within again) body) exits.falls } :=
  rfl

theorem Stmt.meaning_forLoop_empty (condition iterator : Option Expr) (body : List Stmt) :
    (Stmt.forLoop .empty condition iterator body).meaning meant exits =
      rounds meant condition iterator
        (fun again => Script.meaning meant (exits.within again) body) exits.falls :=
  rfl

/-- Code that runs one after another. -/
theorem meaning_append (front back : List Stmt) :
    meaning meant exits (front ++ back) =
      meaning meant { exits with falls := meaning meant exits back } front := by
  induction front with
  | nil => rfl
  | cons first rest ih =>
    show first.meaning meant { exits with falls := meaning meant exits (rest ++ back) } = _
    rw [ih]
    rfl

theorem casesMeaning_eq (cases : List Case) (clause : Nat) : casesMeaning meant exits cases clause =
      meaning meant exits ((cases.drop clause).flatMap Case.body) := by
  induction cases generalizing clause with
  | nil => simp [casesMeaning, meaning]
  | cons first rest ih =>
    obtain ⟨test, body⟩ := first
    cases clause with
    | zero =>
      rw [List.drop_zero, List.flatMap_cons, meaning_append, casesMeaning, ih, List.drop_zero]
      rfl
    | succ clause => exact ih clause

theorem entries_append (front back : List Stmt) :
    entries meant exits (front ++ back) =
      entries meant { exits with falls := meaning meant exits back } front ++
        entries meant exits back := by
  induction front with
  | nil => rfl
  | cons first rest ih =>
    show first.entries meant { exits with falls := meaning meant exits (rest ++ back) } ++
      entries meant exits (rest ++ back) = _
    rw [ih, meaning_append, ← List.append_assoc]
    rfl

theorem caseEntries_eq (cases : List Case) :
    caseEntries meant exits cases = entries meant exits (cases.flatMap Case.body) := by
  induction cases with
  | nil => rfl
  | cons first rest ih =>
    obtain ⟨test, body⟩ := first
    rw [List.flatMap_cons, entries_append, caseEntries, ih, casesMeaning_eq, List.drop_zero]
    rfl

end Parts

section Closed

variable {meant : Interpretation σ} {exits : Exits σ} {falls : Sights σ}

theorem meaning_of_closed_of {code : List Stmt}
    (each : ∀ statement ∈ code, statement.fallsThrough = false →
      statement.meaning meant { exits with falls := falls } = statement.meaning meant exits)
    (closed : fallsThrough code = false) :
    meaning meant { exits with falls := falls } code = meaning meant exits code := by
  induction code with
  | nil =>
    rw [fallsThrough] at closed
    cases closed
  | cons first rest ih =>
    cases rest with
    | nil =>
      rw [fallsThrough] at closed
      exact each first (List.mem_cons_self ..) closed
    | cons second rest =>
      rw [fallsThrough] at closed
      have later := ih (fun statement member => each statement (List.mem_cons_of_mem _ member)) closed
      exact congrArg (fun back => first.meaning meant { exits with falls := back }) later

theorem Stmt.meaning_of_closed {statement : Stmt} (closed : statement.fallsThrough = false) :
    statement.meaning meant { exits with falls := falls } = statement.meaning meant exits := by
  induction statement using Stmt.childInduction with
  | step parent ih =>
    cases parent with
    | ret value => cases value <;> rfl
    | throw | goto => rfl
    | block body =>
      rw [Stmt.fallsThrough] at closed
      exact meaning_of_closed_of (fun child member => ih child member) closed
    | branch test thenBody elseBody =>
      cases elseBody with
      | none =>
        rw [Stmt.fallsThrough] at closed
        · cases closed
        all_goals simp
      | some elseBody =>
        rw [Stmt.fallsThrough, Bool.or_eq_false_iff] at closed
        exact congrArg₂ (tested meant test)
          (meaning_of_closed_of (fun child member => ih child (List.mem_append_left _ member)) closed.1)
          (meaning_of_closed_of (fun child member => ih child (List.mem_append_right _ member)) closed.2)
    | _ => simp [Stmt.fallsThrough] at closed

/-- What is behind closed code does not matter. -/
theorem meaning_of_closed {code : List Stmt} (closed : fallsThrough code = false) :
    meaning meant { exits with falls := falls } code = meaning meant exits code :=
  meaning_of_closed_of (fun _ _ => Stmt.meaning_of_closed) closed

end Closed

end Unnest.Script
