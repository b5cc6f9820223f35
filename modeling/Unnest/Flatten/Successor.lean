import Unnest.Text.Quoted

/-! Where control goes when a construct has finished. -/

namespace Unnest.Flatten

inductive Successor where
  /-- A made-up name, under which everything after the construct must be scheduled. -/
  | fresh (name : String)
  /-- The label of the labeled statement that follows. -/
  | next (name : String)
  /-- Nothing follows, so control goes where the enclosing code falls through to. -/
  | fallThrough (name : String)
  deriving DecidableEq

namespace Successor

def name : Successor → String
  | .fresh name => name
  | .next name => name
  | .fallThrough name => name

def describe : Successor → String
  | .fresh name => "Fresh(" ++ Text.quoted name ++ ")"
  | .next name => "Next(" ++ Text.quoted name ++ ")"
  | .fallThrough name => "FallThrough(" ++ Text.quoted name ++ ")"

end Successor

end Unnest.Flatten
