import Unnest.Script.Basic

/-! How statements run, one step after another. What expressions do is left open: any state
will do, and any interpretation of expressions as changes of that state. A run shows the states
that it goes through and how it ends. -/

namespace Unnest.Script

universe u

/-- What the parts of a program do that are never looked into. An expression changes the state
and gives a truth value, a switch picks the clause that it starts at, and a declaration of a
function changes the state. -/
structure Interpretation (σ : Type u) where
  evaluate : Expr → σ → Bool × σ
  select : Expr → List (Option Expr) → σ → Option Nat × σ
  declare : String → List String → List Stmt → σ → σ

/-- A negation does what its operand does and has the other truth value. -/
def Interpretation.Negates {σ : Type u} (meant : Interpretation σ) : Prop :=
  ∀ operand state, meant.evaluate operand.negate state =
    (!(meant.evaluate operand state).1, (meant.evaluate operand state).2)

inductive Ending where
  /-- Control went to the exit. -/
  | left
  | returned (value : Option Expr)
  | threw (value : Expr)
  /-- A goto named a label that is not there. -/
  | lost (target : String)
  /-- Control had nowhere to go: a jump out of no loop, or the end of a block. -/
  | stray

/-- What can be seen of a run by some time: the states it went through, and how it ended if it has. -/
structure Sight (σ : Type u) where
  states : List σ
  ending : Option Ending

/-- Code around the code that runs. -/
inductive Level where
  | plain (next : List Stmt)
  | loop (again after : List Stmt)
  | switch (after : List Stmt)

namespace Level

/-- Around the body of a `while` loop. A `do` loop goes on as one when its body has run. -/
def ofWhile (condition : Expr) (body rest : List Stmt) : Level :=
  .loop (.whileLoop condition body :: rest) rest

/-- Around the body of a `for` loop, which does not run its initializer again. -/
def ofFor (condition iterator : Option Expr) (body rest : List Stmt) : Level :=
  .loop ((iterator.map Stmt.expression).toList ++ .forLoop .empty condition iterator body :: rest)
    rest

end Level

/-- What runs from a clause on is part of the switch. -/
theorem clauses_subset (cases : List Case) (clause : Nat) :
    (cases.drop clause).flatMap Case.body ⊆ cases.flatMap Case.body := by
  intro child member
  obtain ⟨part, dropped, inPart⟩ := List.mem_flatMap.1 member
  exact List.mem_flatMap.2 ⟨part, List.mem_of_mem_drop dropped, inPart⟩

/-- A place in a run: code and what is around it, the innermost first, or the end. -/
inductive Point where
  | runs (code : List Stmt) (levels : List Level)
  | ended (ending : Ending)

/-- Where a break leads. -/
def leave : List Level → Point
  | [] => .ended .stray
  | .plain _ :: levels => leave levels
  | .loop _ after :: levels => .runs after levels
  | .switch after :: levels => .runs after levels

/-- Where a continue leads, which passes a switch. -/
def goOn : List Level → Point
  | [] => .ended .stray
  | .plain _ :: levels => goOn levels
  | .loop again _ :: levels => .runs again levels
  | .switch _ :: levels => goOn levels

/-- What a run needs to know beyond the code that it is in. -/
structure Program where
  /-- Where a goto leads. -/
  target : String → Point
  /-- What the end of the code means. -/
  atEnd : Ending

namespace Program

variable {σ : Type u}

/-- Where control goes from the end of code. -/
def resume (program : Program) : List Level → Point
  | [] => .ended program.atEnd
  | .plain next :: levels => .runs next levels
  | .loop again _ :: levels => .runs again levels
  | .switch after :: levels => .runs after levels

/-- One step: the new state, if anything is done, and where control goes. A jump with a name, which
flattening does not take, goes nowhere. -/
def next (program : Program) (meant : Interpretation σ) (state : σ) (levels : List Level) :
    List Stmt → Option σ × Point
  | [] => (none, program.resume levels)
  | .block body :: rest => (none, .runs body (.plain rest :: levels))
  | .labeled _ body :: rest => (none, .runs [body] (.plain rest :: levels))
  | .branch test thenBody elseBody :: rest =>
    (some (meant.evaluate test state).2,
      .runs (if (meant.evaluate test state).1 then thenBody else elseBody.getD [])
        (.plain rest :: levels))
  | .whileLoop condition body :: rest =>
    (some (meant.evaluate condition state).2,
      if (meant.evaluate condition state).1 then .runs body (.ofWhile condition body rest :: levels)
      else .runs rest levels)
  | .doLoop body condition :: rest => (none, .runs body (.ofWhile condition body rest :: levels))
  | .forLoop .empty none iterator body :: rest =>
    (none, .runs body (.ofFor none iterator body rest :: levels))
  | .forLoop .empty (some condition) iterator body :: rest =>
    (some (meant.evaluate condition state).2,
      if (meant.evaluate condition state).1 then
        .runs body (.ofFor (some condition) iterator body rest :: levels)
      else .runs rest levels)
  | .forLoop init condition iterator body :: rest =>
    (none, .runs [init] (.plain (.forLoop .empty condition iterator body :: rest) :: levels))
  | .breakJump none :: _ => (none, leave levels)
  | .continueJump none :: _ => (none, goOn levels)
  | .breakJump (some _) :: _ => (none, .ended .stray)
  | .continueJump (some _) :: _ => (none, .ended .stray)
  | .goto target :: _ => (none, program.target target)
  | .ret none :: _ => (none, .ended (.returned none))
  | .ret (some value) :: _ =>
    (some (meant.evaluate value state).2, .ended (.returned (some value)))
  | .throw value :: _ => (some (meant.evaluate value state).2, .ended (.threw value))
  | .expression value :: rest => (some (meant.evaluate value state).2, .runs rest levels)
  | .empty :: rest => (none, .runs rest levels)
  | .switch discriminant cases :: rest =>
    (some (meant.select discriminant (cases.map Case.test) state).2,
      match (meant.select discriminant (cases.map Case.test) state).1 with
      | none => .runs rest levels
      | some clause => .runs ((cases.drop clause).flatMap Case.body) (.switch rest :: levels))
  | .function name params body :: rest =>
    (some (meant.declare name params body state), .runs rest levels)

theorem next_forLoop {program : Program} {meant : Interpretation σ} {state : σ}
    {levels : List Level} {init : Stmt} {condition iterator : Option Expr} {body rest : List Stmt}
    (pending : init ≠ .empty) :
    program.next meant state levels (.forLoop init condition iterator body :: rest) =
      (none, .runs [init] (.plain (.forLoop .empty condition iterator body :: rest) :: levels)) := by
  cases init <;> first | rfl | exact absurd rfl pending

/-- A step of a run, from the point and the state that it has come to. -/
def step (program : Program) (meant : Interpretation σ) : Point × σ → Point × σ
  | (.ended ending, state) => (.ended ending, state)
  | (.runs code levels, state) =>
    ((program.next meant state levels code).2, (program.next meant state levels code).1.getD state)

/-- What a run from the point shows, at each time at which there is something new to see. -/
inductive Shows (program : Program) (meant : Interpretation σ) : Point → σ → Sight σ → Prop where
  | ended {ending : Ending} {state : σ} :
      Shows program meant (.ended ending) state ⟨[], some ending⟩
  | silent {code : List Stmt} {levels : List Level} {point : Point} {state : σ} {sight : Sight σ}
      (step : program.next meant state levels code = (none, point))
      (shows : Shows program meant point state sight) :
      Shows program meant (.runs code levels) state sight
  | now {code : List Stmt} {levels : List Level} {point : Point} {state state' : σ}
      (step : program.next meant state levels code = (some state', point)) :
      Shows program meant (.runs code levels) state ⟨[state'], none⟩
  | later {code : List Stmt} {levels : List Level} {point : Point} {state state' : σ}
      {sight : Sight σ} (step : program.next meant state levels code = (some state', point))
      (shows : Shows program meant point state' sight) :
      Shows program meant (.runs code levels) state ⟨state' :: sight.states, sight.ending⟩

end Program

mutual

/-- The labels in a statement, with the points that they stand at. -/
def Stmt.places (rest : List Stmt) (levels : List Level) : Stmt → List (String × Point)
  | .labeled label body =>
    (label, .runs (.labeled label body :: rest) levels) :: body.places [] (.plain rest :: levels)
  | .block body => places (.plain rest :: levels) body
  | .branch _ thenBody none => places (.plain rest :: levels) thenBody
  | .branch _ thenBody (some elseBody) =>
    places (.plain rest :: levels) thenBody ++ places (.plain rest :: levels) elseBody
  | .whileLoop condition body => places (.ofWhile condition body rest :: levels) body
  | .doLoop body condition => places (.ofWhile condition body rest :: levels) body
  | .forLoop init condition iterator body =>
    init.places [] (.plain (.forLoop .empty condition iterator body :: rest) :: levels) ++
      places (.ofFor condition iterator body rest :: levels) body
  | .switch _ cases => casePlaces (.switch rest :: levels) cases
  | _ => []

/-- The labels in code, with the points that they stand at. -/
def places (levels : List Level) : List Stmt → List (String × Point)
  | [] => []
  | first :: rest => first.places rest levels ++ places levels rest

/-- The labels in the clauses of a switch. A clause goes on with those behind it. -/
def casePlaces (levels : List Level) : List Case → List (String × Point)
  | [] => []
  | .clause _ body :: rest =>
    places (.plain (rest.flatMap Case.body) :: levels) body ++ casePlaces levels rest

end

/-- A body as it is written. Gotos lead to its labels, wherever they stand, and to the exit. -/
def structured (exitLabel : String) (body : List Stmt) : Program where
  target label :=
    if label = exitLabel then .ended .left
    else ((places [] body).lookup label).getD (.ended (.lost label))
  atEnd := .left

/-- Blocks as a dispatch machine runs them. Gotos lead to blocks and to the exit. -/
def dispatched (exitLabel : String) (blocks : List LabeledBlock) : Program where
  target label :=
    if label = exitLabel then .ended .left
    else match blocks.find? fun block => block.name == label with
      | some block => .runs block.statements []
      | none => .ended (.lost label)
  atEnd := .stray

/-- A dispatch machine starts with the first block. -/
def entryPoint : List LabeledBlock → Point
  | [] => .ended .stray
  | entry :: _ => .runs entry.statements []

end Unnest.Script
