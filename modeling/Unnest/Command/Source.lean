import Unnest.Command.Error
import Unnest.Command.Format
import Unnest.Flatten.Blocks
import Unnest.Json.Reader
import Unnest.Json.Writer
import Unnest.Script.Decode
import Unnest.Script.Encode
import Unnest.Script.Listing

/-! From the text of a body to the text of its blocks. -/

namespace Unnest.Command

open Script

/-- A body from JSON text: an array of statements, or a single statement. -/
def parseBody (source : String) : Except RunError (List Stmt) :=
  match Json.parse Json.maximalDepth source with
  | none => .error .invalidJson
  | some (.array items) =>
    match decodeBody (.array items) with
    | some body => .ok body
    | none => .error .notStatementArray
  | some value =>
    match Stmt.decode value with
    | some statement => .ok [statement]
    | none => .error .notStatement

/-- The same computation, with its failures as failures of the command. -/
def failingAs {ε α : Type} (wrap : ε → RunError) (computation : Recording ε α) :
    Recording RunError α := fun journal =>
  match computation journal with
  | .ok value journal => .ok value journal
  | .error fault journal => .error (wrap fault) journal

/-- Flatten the body that a text denotes, and check the blocks if asked to. -/
def flattenSource (source : String) (options : Flatten.Options) (verify : Bool) :
    Recording RunError (List LabeledBlock) := do
  let body ← ofExcept (parseBody source)
  let blocks ← failingAs .flatten (Flatten.flattenRecorded options body)
  if verify then failingAs .check (BlockCheck.checkRecorded blocks options.exitLabel)
  return blocks

/-- The text, with a line break at its end. -/
def endLine (text : String) : String :=
  if text.toList.getLast? = some '\n' then text else text ++ "\n"

/-- The layout of JSON output. -/
def layoutOf (pretty : Bool) : Json.Layout := if pretty then .indented 0 else .compact

/-- The text of a block list. -/
def renderBlocks (blocks : List LabeledBlock) (format : OutputFormat) (pretty : Bool) : String :=
  endLine (match format with
    | .json => (encodeBlocks blocks).write (layoutOf pretty)
    | .text => listing blocks)

end Unnest.Command
