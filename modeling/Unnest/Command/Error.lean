import Unnest.BlockCheck
import Unnest.Flatten.Error

/-! Why a command fails, from the outermost cause to the innermost. -/

namespace Unnest.Command

inductive RunError where
  | flatten (error : Flatten.FlattenError)
  | check (fault : BlockCheck.BlockFault)
  | options (fault : Flatten.Options.Fault)
  | invalidJson
  | notStatementArray
  | notStatement
  | configuration
  | configurationFile (path : String)
  | unreadableConfiguration (path : String)
  | unreadableInput (path : String)
  | unreadableStandardInput

namespace RunError

def configurationMessage : String :=
  "expected an object with `exitLabel`, `anonymousPrefix`, `log` or `logFormat`"

/-- The messages of the causes, outermost first. -/
def chain : RunError → List String
  | .flatten error => [error.message]
  | .check fault => [fault.message]
  | .options fault => [(Flatten.FlattenError.invalidOptions fault).message]
  | .invalidJson => ["input is not valid JSON"]
  | .notStatementArray => ["input is not a statement array"]
  | .notStatement => ["input is neither a statement array nor a statement"]
  | .configuration => [configurationMessage]
  | .configurationFile path => ["failed to parse config: " ++ path, configurationMessage]
  | .unreadableConfiguration path => ["failed to read config: " ++ path]
  | .unreadableInput path => ["failed to read input: " ++ path]
  | .unreadableStandardInput => ["failed to read input from stdin"]

def message (error : RunError) : String := ": ".intercalate error.chain

/-- One for an input that was read but refused, two for everything else. -/
def exitCode : RunError → Nat
  | .flatten _ => 1
  | .check _ => 1
  | _ => 2

end RunError

/-- A failure for the reader's eyes, one cause a line. -/
def renderError (color : Bool) : List String → String
  | [] => ""
  | first :: causes =>
    (if color then "\x1b[1;31merror\x1b[0m" else "error") ++ ": " ++ first ++
      String.join (causes.map fun cause =>
        "\n  " ++ (if color then "\x1b[33mcaused by\x1b[0m" else "caused by") ++ ": " ++ cause)

end Unnest.Command
