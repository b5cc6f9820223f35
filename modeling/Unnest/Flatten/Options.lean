/-! The names that a run of flattening may use: the label that means "control has left",
and the stem of the names it makes up. -/

namespace Unnest.Flatten

structure Options where
  exitLabel : String
  anonymousPrefix : String
  deriving DecidableEq

namespace Options

def standard : Options := ⟨"$exit", "$sm"⟩

/-- Why options cannot be used. -/
inductive Fault where
  | emptyExitLabel
  | emptyPrefix
  | exitStartsWithPrefix (exitLabel anonymousPrefix : String)
  deriving DecidableEq

def Fault.message : Fault → String
  | .emptyExitLabel => "exit label must not be empty"
  | .emptyPrefix => "anonymous label prefix must not be empty"
  | .exitStartsWithPrefix exitLabel anonymousPrefix =>
    "exit label `" ++ exitLabel ++ "` starts with the anonymous prefix `" ++ anonymousPrefix ++ "`"

/-- The text starts with the anonymous prefix. -/
def startsAnonymous (options : Options) (text : String) : Bool :=
  options.anonymousPrefix.toList.isPrefixOf text.toList

def validate (options : Options) : Except Fault Unit :=
  if options.exitLabel = "" then .error .emptyExitLabel
  else if options.anonymousPrefix = "" then .error .emptyPrefix
  else if options.startsAnonymous options.exitLabel then
    .error (.exitStartsWithPrefix options.exitLabel options.anonymousPrefix)
  else .ok ()

/-- A label that would clash with a name of the run's own. -/
def isReserved (options : Options) (label : String) : Bool :=
  label == options.exitLabel || options.startsAnonymous label

end Options

end Unnest.Flatten
