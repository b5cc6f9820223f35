import Unnest.Command.Configuration
import Unnest.Command.Folder
import Unnest.Command.Source

/-! One invocation: the configuration file, then the options, then the input. What the
outside world gives is asked for only when its turn comes. -/

namespace Unnest.Command

/-- What a run can read. -/
structure Surroundings (m : Type → Type) where
  fileText : String → m (Option String)
  inputText : m (Option String)

/-- Steps of a run in some surroundings. -/
abbrev CommandM (m : Type → Type) := ExceptT RunError (StateT Journal m)

variable {m : Type → Type} [Monad m]

/-- A step that needs nothing from outside. -/
def CommandM.ofRecording {α : Type} (computation : Recording RunError α) : CommandM m α :=
  ExceptT.mk fun journal => pure (match computation journal with
    | .ok value journal => (.ok value, journal)
    | .error error journal => (.error error, journal))

def CommandM.outside {α : Type} (question : m α) : CommandM m α :=
  ExceptT.lift (StateT.lift question)

/-- The configuration file, if the arguments name one. -/
def loadConfiguration (surroundings : Surroundings m) (arguments : Arguments) :
    CommandM m (Option Configuration) := do
  match arguments.config with
  | none => return none
  | some path =>
    match ← CommandM.outside (surroundings.fileText path) with
    | none => throw (.unreadableConfiguration path)
    | some source =>
      match Configuration.parse source with
      | none => throw (.configurationFile path)
      | some configuration => return some configuration

/-- The text of the input. -/
def readInput (surroundings : Surroundings m) (path : Option String) : CommandM m String := do
  match path.filter fun path => !isStandardInput path with
  | some path =>
    match ← CommandM.outside (surroundings.fileText path) with
    | none => throw (.unreadableInput path)
    | some source => return source
  | none =>
    match ← CommandM.outside surroundings.inputText with
    | none => throw .unreadableStandardInput
    | some source => return source

/-- What goes to the standard output. -/
def run (surroundings : Surroundings m) (arguments : Arguments)
    (configuration : Option Configuration) : CommandM m String := do
  let options ← CommandM.ofRecording (resolveOptionsRecorded configuration arguments)
  let source ← readInput surroundings arguments.input
  CommandM.ofRecording (report (.readInput source.utf8ByteSize))
  let blocks ← CommandM.ofRecording (flattenSource source options arguments.verify)
  return renderBlocks blocks arguments.format arguments.pretty

/-- The whole invocation. -/
def invoke (surroundings : Surroundings m) (arguments : Arguments) : CommandM m String := do
  let configuration ← loadConfiguration surroundings arguments
  run surroundings arguments configuration

end Unnest.Command
