import Unnest.Flatten.Placement

/-! Flattening a whole body: the labels are checked, the entry block is scheduled, and
blocks are made in the order in which they were scheduled until none is left. -/

namespace Unnest.Flatten

open Script

/-- Declared labels must be unique and must not clash with the run's own names. -/
def checkLabels (options : Options) : (seen : List String) → List String → Except FlattenError Unit
  | _, [] => .ok ()
  | seen, label :: rest =>
    if options.isReserved label then .error (.reservedLabel label)
    else if seen.contains label then .error (.repeatedLabel label)
    else checkLabels options (label :: seen) rest

/-- What is checked before a run starts. -/
def precheck (options : Options) (body : List Stmt) : Except FlattenError Unit :=
  match options.validate with
  | .error fault => .error (.invalidOptions fault)
  | .ok () => checkLabels options [] (labels body)

/-- Make the statements of a scheduled block. -/
def makeBlock (block : Pending) : RunM LabeledBlock := do
  reportEvent (.flatteningBlock block.name block.fallThrough)
  let statements ← place block.continuation block.fallThrough (.blockStart block.name)
  let run ← get
  reportEvent (.finishedBlock block.name statements.length run.schedule.pending)
  return ⟨block.name, statements⟩

/-- Make scheduled blocks until none is left, at most as many as the limit. -/
def makeBlocks : (limit : Nat) → RunM (List LabeledBlock)
  | 0 => return []
  | limit + 1 => do
    match ← takeNext with
    | none => return []
    | some block =>
      let made ← makeBlock block
      let others ← makeBlocks limit
      return made :: others

/-- More blocks than a body can have: a statement takes at most three names. -/
def blockLimit (body : List Stmt) : Nat := 2 * weight body + 2

/-- The blocks of a body that passes the checks, the entry block first. -/
def blocksOf (options : Options) (body : List Stmt) : RunM (List LabeledBlock) := do
  let entry ← freshName
  if body.isEmpty then return [⟨entry, [.goto options.exitLabel]⟩]
  else
    enqueue ⟨.ofBlock body, entry, options.exitLabel⟩
    let blocks ← makeBlocks (blockLimit body)
    let run ← get
    reportEvent (.flattenComplete blocks.length run.schedule.registered run.mint.minted)
    return blocks

/-- The run for a body that passes the checks, with its state at the end. -/
def runFrom (journal : Journal) (options : Options) (body : List Stmt) :
    EStateM.Result FlattenError Run (List LabeledBlock) :=
  (blocksOf options body).run
    (.start options ((journal.push (.opened body.length)).push .entered))

/-- Flatten a body and keep the journal. -/
def flattenRecorded (options : Options) (body : List Stmt) :
    Recording FlattenError (List LabeledBlock) := fun journal =>
  match precheck options body with
  | .error fault => .error fault journal
  | .ok () =>
    match runFrom journal options body with
    | .ok blocks run => .ok blocks (run.journal.push .left)
    | .error fault run => .error fault (run.journal.push .left)

/-- Flatten a body into labeled blocks, the entry block first. -/
def flatten (options : Options) (body : List Stmt) : Except FlattenError (List LabeledBlock) :=
  (flattenRecorded options body).result

end Unnest.Flatten
