import Unnest.Flatten.Successor

/-! What a run reports about itself while it works. -/

namespace Unnest.Journal

open Flatten

inductive Event where
  | flatteningBlock (name fallThrough : String)
  | finishedBlock (name : String) (statements pending : Nat)
  | flattenComplete (blocks registered anonymous : Nat)
  | labelStartsBlock (label : String)
  | loopMoved (loopTop : String)
  | flatteningBranch (after : Successor)
  | inliningWhile (loopName : String) (after : Successor)
  | inliningDo (loopName conditionLabel : String)
  | inliningDoWithBreak (loopName conditionLabel : String) (after : Successor)
  | inliningFor (loopName iteratorLabel : String) (after : Successor)
  | droppedEmpty (name : String)
  | scheduled (name fallThrough : String) (depth : Nat)
  | verified (blocks : Nat)
  | resolvedOptions (exitLabel anonymousPrefix : String)
  | readInput (bytes : Nat)

inductive Level where
  | trace
  | debug

def Level.name : Level → String
  | .trace => "TRACE"
  | .debug => "DEBUG"

inductive Field where
  | count (value : Nat)
  | text (value : String)

namespace Event

def message : Event → String
  | .flatteningBlock .. => "flattening block"
  | .finishedBlock .. => "finished block"
  | .flattenComplete .. => "flatten complete"
  | .labelStartsBlock _ => "label starts a new block"
  | .loopMoved _ => "loop moved to its own block"
  | .flatteningBranch _ => "flattening if"
  | .inliningWhile .. => "inlining while loop"
  | .inliningDo .. => "inlining do-while loop"
  | .inliningDoWithBreak .. => "inlining do-while loop with break"
  | .inliningFor .. => "inlining for loop"
  | .droppedEmpty _ => "dropping empty task"
  | .scheduled .. => "scheduled block"
  | .verified _ => "verified block list"
  | .resolvedOptions .. => "resolved options"
  | .readInput _ => "read input"

/-- Single decisions are traced, and the progress of the run is for debugging. -/
def level : Event → Level
  | .flatteningBlock .. => .debug
  | .finishedBlock .. => .debug
  | .flattenComplete .. => .debug
  | .resolvedOptions .. => .debug
  | .readInput _ => .debug
  | _ => .trace

/-- The part of the program that reports the event, as log filters name it. -/
def target : Event → String
  | .flatteningBlock .. => "stateflat_flatten::engine"
  | .finishedBlock .. => "stateflat_flatten::engine"
  | .flattenComplete .. => "stateflat_flatten::engine"
  | .labelStartsBlock _ => "stateflat_flatten::engine"
  | .loopMoved _ => "stateflat_flatten::engine::engine_constructs"
  | .flatteningBranch _ => "stateflat_flatten::engine::engine_constructs"
  | .inliningWhile .. => "stateflat_flatten::engine::engine_constructs"
  | .inliningDo .. => "stateflat_flatten::engine::engine_constructs"
  | .inliningDoWithBreak .. => "stateflat_flatten::engine::engine_constructs"
  | .inliningFor .. => "stateflat_flatten::engine::engine_constructs"
  | .droppedEmpty _ => "stateflat_flatten::scheduler"
  | .scheduled .. => "stateflat_flatten::scheduler"
  | .verified _ => "stateflat_flatten::verify"
  | .resolvedOptions .. => "stateflat::cli::config"
  | .readInput _ => "stateflat::cli::driver"

def fields : Event → List (String × Field)
  | .flatteningBlock name fallThrough => [("name", .text name), ("fall_through", .text fallThrough)]
  | .finishedBlock name statements pending =>
    [("name", .text name), ("statements", .count statements), ("pending", .count pending)]
  | .flattenComplete blocks registered anonymous =>
    [("blocks", .count blocks), ("registered", .count registered), ("anonymous", .count anonymous)]
  | .labelStartsBlock label => [("label", .text label)]
  | .loopMoved loopTop => [("loop_top", .text loopTop)]
  | .flatteningBranch after => [("after", .text after.describe)]
  | .inliningWhile loopName after =>
    [("loop_name", .text loopName), ("after", .text after.describe)]
  | .inliningDo loopName conditionLabel =>
    [("loop_name", .text loopName), ("condition_label", .text conditionLabel)]
  | .inliningDoWithBreak loopName conditionLabel after =>
    [("loop_name", .text loopName), ("condition_label", .text conditionLabel),
      ("after", .text after.describe)]
  | .inliningFor loopName iteratorLabel after =>
    [("loop_name", .text loopName), ("iterator_label", .text iteratorLabel),
      ("after", .text after.describe)]
  | .droppedEmpty name => [("name", .text name)]
  | .scheduled name fallThrough depth =>
    [("name", .text name), ("fall_through", .text fallThrough), ("depth", .count depth)]
  | .verified blocks => [("blocks", .count blocks)]
  | .resolvedOptions exitLabel anonymousPrefix =>
    [("exit_label", .text exitLabel), ("anonymous_prefix", .text anonymousPrefix)]
  | .readInput bytes => [("bytes", .count bytes)]

end Event

end Unnest.Journal
