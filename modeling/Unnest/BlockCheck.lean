import Unnest.Journal.Basic
import Unnest.Script.FallThrough
import Unnest.Script.Labels

/-! Checks on a block list: every name is unique, no block can run off its end, and every
goto leads to a block or to the exit label. -/

namespace Unnest.BlockCheck

open Script

/-- What can be wrong with a block list. -/
inductive BlockFault where
  | duplicateBlock (name : String)
  | openEnded (name : String)
  | danglingGoto (source target : String)
  deriving DecidableEq

def BlockFault.message : BlockFault → String
  | .duplicateBlock name => "block `" ++ name ++ "` is produced more than once"
  | .openEnded name => "block `" ++ name ++ "` can fall off its end"
  | .danglingGoto source target =>
    "block `" ++ source ++ "` jumps to `" ++ target ++
      "`, which is neither a block nor the exit label"

/-- The first name that occurs before. -/
def repeatedName : (seen : List String) → List String → Option String
  | _, [] => none
  | seen, name :: rest =>
    if seen.contains name then some name else repeatedName (name :: seen) rest

/-- The first target of a goto that is neither the exit label nor a block. -/
def danglingTarget (names : List String) (exitLabel : String) (block : LabeledBlock) :
    Option String :=
  (gotoTargets block.statements).find? fun target =>
    target != exitLabel && !names.contains target

/-- What is wrong with one block. -/
def blockFault (names : List String) (exitLabel : String) (block : LabeledBlock) :
    Option BlockFault :=
  if fallsThrough block.statements then some (.openEnded block.name)
  else (danglingTarget names exitLabel block).map (.danglingGoto block.name)

/-- The first thing that is wrong with a block list. -/
def firstFault (blocks : List LabeledBlock) (exitLabel : String) : Option BlockFault :=
  let names := blocks.map LabeledBlock.name
  match repeatedName [] names with
  | some name => some (.duplicateBlock name)
  | none => blocks.findSome? (blockFault names exitLabel)

/-- Check a block list. -/
def check (blocks : List LabeledBlock) (exitLabel : String) : Except BlockFault Unit :=
  match firstFault blocks exitLabel with
  | some fault => .error fault
  | none => .ok ()

/-- Check a block list and report success. -/
def checkRecorded (blocks : List LabeledBlock) (exitLabel : String) :
    Recording BlockFault Unit := do
  ofExcept (check blocks exitLabel)
  report (.verified blocks.length)

end Unnest.BlockCheck
