import Unnest.Journal.Event

/-! The journal of a run: the reported events in order, and the stretch of them that
belongs to flattening. A run that fails keeps the journal written so far. -/

namespace Unnest.Journal

inductive Entry where
  /-- Flattening of a body of so many statements begins. -/
  | opened (statements : Nat)
  | entered
  | left
  | event (event : Event)

/-- How the stretch of flattening is reported when it begins. -/
structure Stretch where
  name : String
  level : Level
  target : String

def flattening : Stretch := ⟨"flatten", .debug, "stateflat_flatten::engine"⟩

end Unnest.Journal

namespace Unnest

abbrev Journal := Array Journal.Entry

/-- Computations that keep a journal, also when they fail. -/
abbrev Recording (ε : Type) := EStateM ε Journal

/-- Report an event. -/
def report {ε : Type} (event : Journal.Event) : Recording ε Unit :=
  modify fun journal => journal.push (.event event)

/-- The result alone, from an empty journal. -/
def Recording.result {ε α : Type} (computation : Recording ε α) : Except ε α :=
  match computation.run #[] with
  | .ok value _ => .ok value
  | .error fault _ => .error fault

end Unnest
