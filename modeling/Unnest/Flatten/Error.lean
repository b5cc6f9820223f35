import Unnest.Flatten.Options
import Unnest.Script.Basic

/-! Why a body cannot be flattened. No failure leaves a partial block list. -/

namespace Unnest.Flatten

open Script

inductive FlattenError where
  /-- Two resume points would share one name. -/
  | duplicateLabel (label : String)
  /-- A kind of statement that has no strategy contains a label. -/
  | unhandledLabels (kind : Kind)
  | labelInSwitch (label : String)
  | namedJump (keyword : Kind) (label : String)
  | repeatedLabel (label : String)
  | reservedLabel (label : String)
  | invalidOptions (fault : Options.Fault)
  deriving DecidableEq

namespace FlattenError

def message : FlattenError → String
  | .duplicateLabel label => "internal error: label `" ++ label ++ "` was scheduled twice"
  | .unhandledLabels kind =>
    "internal error: a `" ++ kind.name ++ "` statement cannot contain labels"
  | .labelInSwitch label =>
    "labels inside a switch statement are not supported (found `" ++ label ++ "`)"
  | .namedJump keyword label =>
    "`" ++ keyword.name ++ " " ++ label ++
      "` is not supported; only unlabeled break and continue can be flattened"
  | .repeatedLabel label => "label `" ++ label ++ "` is declared more than once"
  | .reservedLabel label => "label `" ++ label ++ "` collides with a reserved state machine name"
  | .invalidOptions fault => "invalid flatten options: " ++ fault.message

/-- The failure points at a fault of an earlier phase, not at a construct that is refused. -/
def isInternal : FlattenError → Bool
  | .duplicateLabel _ => true
  | .unhandledLabels _ => true
  | _ => false

end FlattenError

end Unnest.Flatten
