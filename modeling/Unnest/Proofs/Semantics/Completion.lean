import Mathlib
import Unnest.Proofs.Semantics.Execution
import Unnest.Script.FallThrough

/-! Code whose end is not reachable never comes to its end. What keeps control from the end is
read off the levels inside the code: wherever the end of an inner piece, a break or a continue
leads, the code that follows there has no reachable end either. A step keeps this up, unless it
is a jump out of the code. -/

namespace Unnest.Script

universe u

namespace Level

def takesBreak : Level → Bool
  | .plain _ => false
  | .loop .. => true
  | .switch _ => true

/-- A continue passes a switch. -/
def takesContinue : Level → Bool
  | .plain _ => false
  | .loop .. => true
  | .switch _ => false

end Level

/-- The statement is a jump that none of these levels takes. -/
def Stmt.jumpsOut (inner : List Level) : Stmt → Bool
  | .goto _ => true
  | .ret _ => true
  | .throw _ => true
  | .breakJump label => label.isSome || !inner.any Level.takesBreak
  | .continueJump label => label.isSome || !inner.any Level.takesContinue
  | _ => false

/-- Control is about to jump out of code that has these levels around it. -/
def Point.Leaves (levels : List Level) (point : Point) : Prop :=
  ∃ jump rest inner, point = .runs (jump :: rest) (inner ++ levels) ∧ jump.jumpsOut inner = true

namespace Program

variable {σ : Type u}

/-- A run comes to a point and has not jumped out of the code in these levels before. -/
inductive Stays (program : Program) (meant : Interpretation σ) (levels : List Level)
    (start : Point × σ) : Point × σ → Prop where
  | here : Stays program meant levels start start
  | step {now : Point × σ} (stays : Stays program meant levels start now)
      (remains : ¬ now.1.Leaves levels) : Stays program meant levels start (program.step meant now)

variable (program : Program) (meant : Interpretation σ) (levels : List Level) (start : Point × σ)

/-- The run comes to the end of the code and goes on behind it. -/
def Completes : Prop := ∃ state, program.Stays meant levels start (.runs [] levels, state)

/-- The run leaves the code by a goto, a return, a throw, a break or a continue. -/
def JumpsOut : Prop := ∃ now, program.Stays meant levels start now ∧ now.1.Leaves levels

/-- The run goes on for ever inside the code. -/
def StaysForever : Prop :=
  ∀ time, program.Stays meant levels start ((program.step meant)^[time] start) ∧
    ∃ code inner, ((program.step meant)^[time] start).1 = .runs code (inner ++ levels)

end Program

/-- Neither the end of code with these levels around it, if control comes to it, nor a break or
continue in the code leads to the end of the outermost level. -/
def Sealed : (falls : Bool) → List Level → Prop
  | falls, [] => falls = false
  | falls, .plain next :: inner =>
    (falls = false ∧ Sealed false inner) ∨ Sealed (fallsThrough next) inner
  | _, .loop again after :: inner =>
    Sealed (fallsThrough again) inner ∧ Sealed (fallsThrough after) inner
  | _, .switch after :: inner => Sealed (fallsThrough after) inner

/-- Control is inside code that has these levels around it, and its end is sealed off. -/
def Point.Held (levels : List Level) (point : Point) : Prop :=
  ∃ code inner, point = .runs code (inner ++ levels) ∧ Sealed (fallsThrough code) inner

section Sealed

variable {falls : Bool} {inner levels : List Level} {first other : Stmt} {body rest : List Stmt}

theorem Sealed.closed (sealed : Sealed falls inner) : Sealed false inner := by
  induction inner generalizing falls with
  | nil => rfl
  | cons level inner ih =>
    cases level with
    | plain next =>
      rcases sealed with ⟨_, closed⟩ | behind
      · exact .inl ⟨rfl, closed⟩
      · exact .inr behind
    | loop | switch => exact sealed

/-- Code from which less falls through is sealed as well. -/
theorem Sealed.less {less : Bool} (sealed : Sealed falls inner) (le : less = true → falls = true) :
    Sealed less inner := by
  cases less with
  | false => exact sealed.closed
  | true => exact le rfl ▸ sealed

theorem Sealed.within (sealed : Sealed (fallsThrough (first :: rest)) inner) :
    Sealed first.fallsThrough (.plain rest :: inner) := by
  cases rest with
  | cons second rest => exact .inr (by rwa [fallsThrough] at sealed)
  | nil =>
    rw [fallsThrough] at sealed
    cases falls : first.fallsThrough with
    | false => exact .inl ⟨rfl, sealed.closed⟩
    | true => exact .inr (by rwa [falls] at sealed)

theorem Sealed.behind (sealed : Sealed (fallsThrough (first :: rest)) inner)
    (passes : first.fallsThrough = true) : Sealed (fallsThrough rest) inner := by
  rcases sealed.within with ⟨closed, _⟩ | behind
  · rw [passes] at closed
    cases closed
  · exact behind

/-- Whatever stands before sealed code, the whole is sealed. -/
theorem Sealed.before (sealed : Sealed (fallsThrough rest) inner) :
    Sealed (fallsThrough (first :: rest)) inner := by
  cases rest with
  | cons second rest => rwa [fallsThrough]
  | nil => exact sealed.less fun _ => rfl

theorem Sealed.prepend (front : List Stmt) (sealed : Sealed (fallsThrough rest) inner) :
    Sealed (fallsThrough (front ++ rest)) inner := by
  induction front with
  | nil => exact sealed
  | cons first front ih => exact ih.before

/-- The body of a loop that stands before sealed code. -/
theorem Sealed.ofWhile (sealed : Sealed (fallsThrough rest) inner) (condition : Expr) :
    Sealed falls (.ofWhile condition body rest :: inner) :=
  ⟨sealed.before, sealed⟩

theorem Sealed.ofFor (sealed : Sealed (fallsThrough rest) inner)
    (condition iterator : Option Expr) :
    Sealed falls (.ofFor condition iterator body rest :: inner) :=
  ⟨.prepend _ sealed.before, sealed⟩

theorem Sealed.held {code : List Stmt} (inner : List Level)
    (sealed : Sealed (fallsThrough code) inner) :
    (Point.runs code (inner ++ levels)).Held levels :=
  ⟨code, inner, rfl, sealed⟩

/-- The end of sealed code leads to sealed code. -/
theorem Sealed.resume (sealed : Sealed true inner) (program : Program) :
    (program.resume (inner ++ levels)).Held levels := by
  cases inner with
  | nil => cases sealed
  | cons level inner =>
    cases level with
    | plain next =>
      rcases sealed with ⟨closed, _⟩ | behind
      · cases closed
      · exact behind.held _
    | loop again after => exact sealed.1.held _
    | switch after => exact Sealed.held inner sealed

theorem Sealed.leave (sealed : Sealed falls inner) (taken : inner.any Level.takesBreak = true) :
    (leave (inner ++ levels)).Held levels := by
  induction inner generalizing falls with
  | nil => cases taken
  | cons level inner ih =>
    cases level with
    | plain next =>
      rcases sealed with ⟨_, closed⟩ | behind
      · exact ih closed taken
      · exact ih behind taken
    | loop again after => exact sealed.2.held _
    | switch after => exact Sealed.held inner sealed

theorem Sealed.goOn (sealed : Sealed falls inner) (taken : inner.any Level.takesContinue = true) :
    (goOn (inner ++ levels)).Held levels := by
  induction inner generalizing falls with
  | nil => cases taken
  | cons level inner ih =>
    cases level with
    | plain next =>
      rcases sealed with ⟨_, closed⟩ | behind
      · exact ih closed taken
      · exact ih behind taken
    | loop again after => exact sealed.1.held _
    | switch after => exact ih sealed taken

end Sealed

section Places

variable {levels : List Level} {label : String} {point : Point}

mutual

theorem held_of_stmtPlaces (statement : Stmt) {rest : List Stmt} (inner : List Level)
    (sealed : Sealed (fallsThrough (statement :: rest)) inner)
    (member : (label, point) ∈ statement.places rest (inner ++ levels)) : point.Held levels := by
  -- The levels inside the code grow on the way down to the label; the levels around it stay.
  match statement with
  | .labeled other body =>
    rcases List.mem_cons.1 member with here | below
    · cases here
      exact sealed.held _
    · exact held_of_stmtPlaces body (.plain rest :: inner) (.inr (sealed.behind rfl)) below
  | .block body =>
    have within := sealed.within
    rw [Stmt.fallsThrough] at within
    exact held_of_places body (.plain rest :: inner) within member
  | .branch _ thenBody none =>
    exact held_of_places thenBody (.plain rest :: inner) (.inr (sealed.behind rfl)) member
  | .branch _ thenBody (some elseBody) =>
    have within := sealed.within
    rw [Stmt.fallsThrough] at within
    rcases List.mem_append.1 member with inThen | inElse
    · exact held_of_places thenBody (.plain rest :: inner)
        (within.less fun falls => by rw [falls, Bool.true_or]) inThen
    · exact held_of_places elseBody (.plain rest :: inner)
        (within.less fun falls => by rw [falls, Bool.or_true]) inElse
  -- The end of a loop counts as reachable, so the code behind it is sealed by itself.
  | .whileLoop condition body =>
    exact held_of_places body (.ofWhile condition body rest :: inner)
      ((sealed.behind rfl).ofWhile condition) member
  | .doLoop body condition =>
    exact held_of_places body (.ofWhile condition body rest :: inner)
      ((sealed.behind rfl).ofWhile condition) member
  | .forLoop init condition iterator body =>
    rcases List.mem_append.1 member with inInit | inBody
    · exact held_of_stmtPlaces init
        (.plain (.forLoop .empty condition iterator body :: rest) :: inner)
        (.inr (sealed.behind rfl).before) inInit
    · exact held_of_places body (.ofFor condition iterator body rest :: inner)
        ((sealed.behind rfl).ofFor condition iterator) inBody
  | .switch _ cases =>
    exact held_of_casePlaces cases (.switch rest :: inner)
      (fun _ => sealed.behind rfl) member
  | .breakJump _ | .continueJump _ | .goto _ | .ret _ | .throw _ | .expression _ | .empty
  | .function .. => cases member

/-- A label in sealed code stands at a point from which the end is not reached. -/
theorem held_of_places (code : List Stmt) (inner : List Level)
    (sealed : Sealed (fallsThrough code) inner)
    (member : (label, point) ∈ places (inner ++ levels) code) : point.Held levels := by
  match code with
  | [] => cases member
  | first :: rest =>
    rcases List.mem_append.1 member with here | behind
    · exact held_of_stmtPlaces first inner sealed here
    · cases rest with
      | nil => cases behind
      | cons second rest =>
        rw [fallsThrough] at sealed
        exact held_of_places (second :: rest) inner sealed behind

theorem held_of_casePlaces (cases : List Case) (inner : List Level)
    (sealed : ∀ falls, Sealed falls inner)
    (member : (label, point) ∈ casePlaces (inner ++ levels) cases) : point.Held levels := by
  match cases with
  | [] => nomatch member
  | .clause _ body :: rest =>
    rcases List.mem_append.1 member with here | behind
    · exact held_of_places body (.plain (rest.flatMap Case.body) :: inner)
        (.inr (sealed _)) here
    · exact held_of_casePlaces rest inner sealed behind

end

end Places

section Step

variable {σ : Type u} {program : Program} {meant : Interpretation σ} {levels inner : List Level}
  {code : List Stmt}

/-- A step that does not jump out of sealed code leads to sealed code. -/
theorem Sealed.next (state : σ) (sealed : Sealed (fallsThrough code) inner)
    (remains : ¬ (Point.runs code (inner ++ levels)).Leaves levels) :
    (program.next meant state (inner ++ levels) code).2.Held levels := by
  cases code with
  | nil => exact sealed.resume program
  | cons first rest =>
    have within := sealed.within
    have behind := sealed.behind
    -- An unlabeled break or continue that remains is taken by a level inside the code.
    have stays : first.jumpsOut inner = false :=
      Bool.eq_false_iff.2 fun out => remains ⟨first, rest, inner, rfl, out⟩
    cases first with
    | block body =>
      rw [Stmt.fallsThrough] at within
      exact within.held _
    | labeled label body => exact Sealed.held (.plain rest :: inner) (.inr (behind rfl))
    | branch test thenBody elseBody =>
      dsimp only [Program.next]
      split
      · refine Sealed.held (.plain rest :: inner) (within.less fun falls => ?_)
        rw [fallsThrough_branch, falls, Bool.true_or]
      · refine Sealed.held (.plain rest :: inner) (within.less fun falls => ?_)
        rw [fallsThrough_branch, falls, Bool.or_true]
    | whileLoop condition body =>
      dsimp only [Program.next]
      split
      · exact Sealed.held (.ofWhile condition body rest :: inner)
          ((behind rfl).ofWhile condition)
      · exact (behind rfl).held _
    | doLoop body condition =>
      exact Sealed.held (.ofWhile condition body rest :: inner)
        ((behind rfl).ofWhile condition)
    | forLoop init condition iterator body =>
      have rounds : (Point.runs body (.ofFor condition iterator body rest :: (inner ++ levels))).Held
          levels := Sealed.held (.ofFor condition iterator body rest :: inner)
        ((behind rfl).ofFor condition iterator)
      -- An initializer that is not empty is run first, with the loop begun behind it.
      by_cases begun : init = .empty
      · subst begun
        cases condition with
        | none => exact rounds
        | some condition =>
          dsimp only [Program.next]
          split
          · exact rounds
          · exact (behind rfl).held _
      · rw [Program.next_forLoop begun]
        exact Sealed.held (.plain (.forLoop .empty condition iterator body :: rest) :: inner)
          (.inr (behind rfl).before)
    | breakJump label =>
      cases label with
      | none => exact sealed.leave (by simpa [Stmt.jumpsOut] using stays)
      | some label => cases stays
    | continueJump label =>
      cases label with
      | none => exact sealed.goOn (by simpa [Stmt.jumpsOut] using stays)
      | some label => cases stays
    | goto | ret | throw => cases stays
    | expression | empty | function => exact (behind rfl).held _
    | switch discriminant cases =>
      dsimp only [Program.next]
      split
      · exact (behind rfl).held _
      · exact Sealed.held (.switch rest :: inner) (behind rfl)

theorem Point.Held.step {now : Point × σ} (held : now.1.Held levels)
    (remains : ¬ now.1.Leaves levels) : (program.step meant now).1.Held levels := by
  obtain ⟨point, state⟩ := now
  obtain ⟨code, inner, rfl, sealed⟩ := held
  exact sealed.next state remains

theorem Program.Stays.held {start now : Point × σ} (stays : program.Stays meant levels start now)
    (held : start.1.Held levels) : now.1.Held levels := by
  induction stays with
  | here => exact held
  | step stays remains ih => exact ih.step remains

/-- Control is not at the end of sealed code. -/
theorem Point.Held.ne_end {point : Point} (held : point.Held levels) : point ≠ .runs [] levels := by
  obtain ⟨code, inner, rfl, sealed⟩ := held
  intro same
  injection same with noCode noInner
  subst noCode
  rw [List.append_left_eq_self.1 noInner] at sealed
  cases sealed

/-- A run that does not jump out of the code goes on for ever in it. -/
theorem staysForever_of_held {start : Point × σ} (held : start.1.Held levels)
    (never : ¬ program.JumpsOut meant levels start) :
    program.StaysForever meant levels start := by
  have stays : ∀ time, program.Stays meant levels start ((program.step meant)^[time] start) := by
    intro time
    induction time with
    | zero => exact .here
    | succ time ih =>
      rw [Function.iterate_succ_apply']
      exact .step ih fun leaves => never ⟨_, ih, leaves⟩
  intro time
  obtain ⟨code, inner, here, _⟩ := (stays time).held held
  exact ⟨stays time, code, inner, here⟩

end Step

/-- A run of the code can begin here: at its beginning, or at a label in it. -/
def BeginsIn (body : List Stmt) (levels : List Level) (start : Point) : Prop :=
  start = .runs body levels ∨ ∃ label, (label, start) ∈ places levels body

section Completion

variable {σ : Type u} {body : List Stmt} {levels inner : List Level} {start : Point}

theorem BeginsIn.held (begins : BeginsIn body levels start) (closed : fallsThrough body = false) :
    start.Held levels := by
  rcases begins with rfl | ⟨label, member⟩
  · exact Sealed.held [] closed
  · exact held_of_places body [] closed member

theorem leave_append (passes : inner.any Level.takesBreak = false) :
    leave (inner ++ levels) = leave levels := by
  induction inner with
  | nil => rfl
  | cons level inner ih =>
    cases level with
    | plain next => exact ih passes
    | loop | switch => cases passes

theorem goOn_append (passes : inner.any Level.takesContinue = false) :
    goOn (inner ++ levels) = goOn levels := by
  induction inner with
  | nil => rfl
  | cons level inner ih =>
    cases level with
    | plain | switch => exact ih passes
    | loop => cases passes

/-- A jump out of levels does what it does where they are not. -/
theorem next_of_jumpsOut {jump : Stmt} (out : jump.jumpsOut inner = true) (program : Program)
    (meant : Interpretation σ) (state : σ) (rest : List Stmt) :
    program.next meant state (inner ++ levels) (jump :: rest) =
      program.next meant state levels (jump :: rest) := by
  cases jump with
  | goto | throw => rfl
  | ret value => cases value <;> rfl
  | breakJump label =>
    cases label with
    | none => exact congrArg (none, ·) (leave_append (by simpa [Stmt.jumpsOut] using out))
    | some label => rfl
  | continueJump label =>
    cases label with
    | none => exact congrArg (none, ·) (goOn_append (by simpa [Stmt.jumpsOut] using out))
    | some label => rfl
  | _ => cases out

/-- A goto of a body leads to a label of the body, or the run ends with it. -/
theorem target_structured (exitLabel label : String) :
    (∃ ending, (structured exitLabel body).target label = .ended ending) ∨
      BeginsIn body [] ((structured exitLabel body).target label) := by
  dsimp only [structured]
  split
  · exact .inl ⟨_, rfl⟩
  · cases found : (places [] body).lookup label with
    | none => exact .inl ⟨_, rfl⟩
    | some point =>
      obtain ⟨front, back, split, _⟩ := List.lookup_eq_some_iff.1 found
      exact .inr (.inr ⟨label, by simp [split]⟩)

/-- A jump out of the whole body ends the run, unless it is a goto to a label of the body. -/
theorem step_structured_of_leaves {exitLabel : String} {meant : Interpretation σ}
    {now : Point × σ} (leaves : now.1.Leaves []) :
    (∃ ending, ((structured exitLabel body).step meant now).1 = .ended ending) ∨
      BeginsIn body [] ((structured exitLabel body).step meant now).1 := by
  obtain ⟨point, state⟩ := now
  obtain ⟨jump, rest, inner, rfl, out⟩ := leaves
  dsimp only [Program.step]
  rw [next_of_jumpsOut out]
  cases jump with
  | goto label => exact target_structured exitLabel label
  | ret label | breakJump label | continueJump label => cases label <;> exact .inl ⟨_, rfl⟩
  | throw value => exact .inl ⟨_, rfl⟩
  | _ => cases out

/-- A run of a body, whose gotos lead to its own labels, is inside the body until it ends. -/
theorem held_of_structured (closed : fallsThrough body = false) (exitLabel : String)
    (meant : Interpretation σ) (begins : BeginsIn body [] start) (state : σ) (time : Nat) :
    (∃ ending, (((structured exitLabel body).step meant)^[time] (start, state)).1 = .ended ending) ∨
      (((structured exitLabel body).step meant)^[time] (start, state)).1.Held [] := by
  induction time with
  | zero => exact .inr (begins.held closed)
  | succ time ih =>
    rw [Function.iterate_succ_apply']
    generalize ((structured exitLabel body).step meant)^[time] (start, state) = now at ih ⊢
    obtain ⟨point, state⟩ := now
    rcases ih with ⟨ending, rfl⟩ | held
    · exact .inl ⟨ending, rfl⟩
    · by_cases leaves : point.Leaves []
      · exact (step_structured_of_leaves leaves).imp_right fun again => again.held closed
      · exact .inr (held.step leaves)

/-- Code whose end is not reachable does not come to its end, wherever it stands, whatever its
expressions do, and whether it is run from its beginning or from a label in it: it is left by a
jump, or runs for ever. Nor does it come to its end when its gotos lead back into it. -/
theorem not_completes_of_closed (closed : fallsThrough body = false) (meant : Interpretation σ)
    (state : σ) :
    (∀ (program : Program) levels start, BeginsIn body levels start →
        ¬ program.Completes meant levels (start, state) ∧
          (program.JumpsOut meant levels (start, state) ∨
            program.StaysForever meant levels (start, state))) ∧
      ∀ exitLabel start, BeginsIn body [] start → ∀ time,
        (((structured exitLabel body).step meant)^[time] (start, state)).1 ≠ .runs [] [] := by
  refine ⟨fun program levels start begins => ⟨?_, ?_⟩, fun exitLabel start begins time => ?_⟩
  · rintro ⟨_, completes⟩
    exact (completes.held (begins.held closed)).ne_end rfl
  · exact or_iff_not_imp_left.2 (staysForever_of_held (begins.held closed))
  · rcases held_of_structured closed exitLabel meant begins state time with ⟨ending, ended⟩ | held
    · rw [ended]
      nofun
    · exact held.ne_end

end Completion

/-- A loop around a label, and then a branch of which both bodies jump. -/
def branchBehindLoop : List Stmt :=
  [.whileLoop (.identifier "more") [.labeled "again" (.expression (.identifier "work"))],
    .branch (.identifier "fine") [.ret none] (some [.block [.goto "again"]])]

/-- The label in the loop. -/
def insideLoop : Point :=
  .runs [.labeled "again" (.expression (.identifier "work"))]
    [.ofWhile (.identifier "more") [.labeled "again" (.expression (.identifier "work"))]
      [.branch (.identifier "fine") [.ret none] (some [.block [.goto "again"]])]]

/-- Every other test holds. -/
def alternating : Interpretation Bool where
  evaluate _ odd := (odd, !odd)
  select _ _ odd := (none, odd)
  declare _ _ _ odd := odd

theorem not_completes_of_closed_insideLoop :
    fallsThrough branchBehindLoop = false ∧ BeginsIn branchBehindLoop [] insideLoop ∧
      ¬ (structured "$exit" branchBehindLoop).Completes alternating [] (insideLoop, true) ∧
      (((structured "$exit" branchBehindLoop).step alternating)^[9] (insideLoop, true)).1 ≠
        .runs [] [] := by
  have closed : fallsThrough branchBehindLoop = false := by decide
  have begins : BeginsIn branchBehindLoop [] insideLoop := .inr ⟨"again", List.mem_cons_self ..⟩
  obtain ⟨leaves, never⟩ := not_completes_of_closed closed alternating true
  exact ⟨closed, begins, (leaves _ [] _ begins).1, never "$exit" _ begins 9⟩

end Unnest.Script
