import Unnest.Command.Format

/-! The words of a command line and what they ask for. Words are taken from left to right.
A value that stands apart from its option waits until the next word that needs an answer,
so of two faults the one noticed first is reported. -/

namespace Unnest.Command

structure Arguments where
  input : Option String := none
  format : OutputFormat := .json
  pretty : Bool := false
  noColor : Bool := false
  verify : Bool := false
  exitLabel : Option String := none
  anonymousPrefix : Option String := none
  config : Option String := none
  log : Option String := none
  logFormat : Option LogFormat := none

/-- Why a command line ends before it is carried out. -/
inductive Stop where
  | unknownArgument
  | invalidValue
  | argumentConflict
  | tooManyValues
  | displayHelp
  | displayVersion
  deriving DecidableEq

/-- Only help and version are a success. -/
def Stop.exitCode : Stop → Nat
  | .displayHelp => 0
  | .displayVersion => 0
  | _ => 2

/-- What can be given at most once. -/
inductive Item where
  | input
  | format
  | exitLabel
  | anonymousPrefix
  | config
  | log
  | logFormat
  | pretty
  | noColor
  | verify
  deriving DecidableEq

/-- What an option does. -/
inductive Action where
  /-- It takes a value. -/
  | value (item : Item)
  /-- It stands alone. -/
  | switch (item : Item)
  | help
  | version

namespace Action

def longNames : List (String × Action) := [
  ("format", .value .format),
  ("pretty", .switch .pretty),
  ("no-color", .switch .noColor), ("noColor", .switch .noColor),
  ("verify", .switch .verify),
  ("exit-label", .value .exitLabel), ("exitLabel", .value .exitLabel),
  ("anonymous-prefix", .value .anonymousPrefix), ("anonymousPrefix", .value .anonymousPrefix),
  ("config", .value .config),
  ("log", .value .log),
  ("log-format", .value .logFormat), ("logFormat", .value .logFormat),
  ("help", .help),
  ("version", .version)
]

def shortNames : List (Char × Action) := [('c', .value .config), ('h', .help), ('V', .version)]

end Action

/-- A value, or a mark, for one item. -/
def Arguments.assign (item : Item) (value : String) (arguments : Arguments) :
    Except Stop Arguments :=
  match item with
  | .input => if value = "" then .error .invalidValue else .ok { arguments with input := value }
  | .format =>
    match OutputFormat.ofWord? value with
    | some format => .ok { arguments with format }
    | none => .error .invalidValue
  | .exitLabel => .ok { arguments with exitLabel := value }
  | .anonymousPrefix => .ok { arguments with anonymousPrefix := value }
  | .config => if value = "" then .error .invalidValue else .ok { arguments with config := value }
  | .log => .ok { arguments with log := value }
  | .logFormat =>
    match LogFormat.ofWord? value with
    | some format => .ok { arguments with logFormat := format }
    | none => .error .invalidValue
  | .pretty => .ok { arguments with pretty := true }
  | .noColor => .ok { arguments with noColor := true }
  | .verify => .ok { arguments with verify := true }

/-- An item whose value has not been taken in yet. -/
structure Waiting where
  item : Item
  value : Option String

/-- A command line read so far. -/
structure Reading where
  arguments : Arguments
  given : List Item
  waiting : Option Waiting
  /-- The word `--` has come, so every further word is an input. -/
  onlyInputs : Bool
  inputSeen : Bool

namespace Reading

def start : Reading := ⟨{}, [], none, false, false⟩

/-- Take in a value. -/
def take (item : Item) (value : String) (reading : Reading) : Except Stop Reading :=
  if reading.given.contains item then .error .argumentConflict
  else do
    let arguments ← reading.arguments.assign item value
    return { reading with arguments, given := item :: reading.given }

/-- Take in what waits. -/
def settle (reading : Reading) : Except Stop Reading :=
  match reading.waiting with
  | none => .ok reading
  | some ⟨_, none⟩ => .error .invalidValue
  | some ⟨item, some value⟩ => { reading with waiting := none }.take item value

/-- An option, with the value attached to it if there is one. -/
def option (action : Action) (attached : Option String) (reading : Reading) :
    Except Stop Reading :=
  match action, attached with
  | .value item, some value => do (← reading.settle).take item value
  | .value item, none => do return { ← reading.settle with waiting := some ⟨item, none⟩ }
  | _, some _ => .error .tooManyValues
  | .switch item, none => do (← reading.settle).take item ""
  | .help, none => do
    let _ ← reading.settle
    .error .displayHelp
  | .version, none => do
    let _ ← reading.settle
    .error .displayVersion

/-- Single letters after one dash. What follows a letter that takes a value is the value. -/
def letters : List Char → Reading → Except Stop Reading
  | [], reading => .ok reading
  | letter :: rest, reading =>
    match Action.shortNames.lookup letter with
    | none => .error .unknownArgument
    | some (.value item) =>
      match rest with
      | [] => reading.option (.value item) none
      | '=' :: value => reading.option (.value item) (some (String.ofList value))
      | value => reading.option (.value item) (some (String.ofList value))
    | some action => do letters rest (← reading.option action none)

/-- A name after two dashes, up to the first equals sign, and the value after it. -/
def long (cs : List Char) (reading : Reading) : Except Stop Reading :=
  let name := cs.takeWhile (· != '=')
  let attached := match cs.dropWhile (· != '=') with
    | [] => none
    | _ :: value => some (String.ofList value)
  match Action.longNames.lookup (String.ofList name) with
  | none => .error .unknownArgument
  | some action => reading.option action attached

/-- A word that is no option and no option's value. -/
def input (word : String) (reading : Reading) : Except Stop Reading :=
  if reading.inputSeen then .error .unknownArgument
  else do
    return { ← reading.settle with waiting := some ⟨.input, some word⟩, inputSeen := true }

def word (reading : Reading) (text : String) : Except Stop Reading :=
  if reading.onlyInputs then reading.input text
  else
    match text.toList with
    | ['-', '-'] => .ok { reading with onlyInputs := true }
    | '-' :: '-' :: cs => reading.long cs
    | '-' :: c :: cs => reading.letters (c :: cs)
    | _ =>
      match reading.waiting with
      | some ⟨item, none⟩ => .ok { reading with waiting := some ⟨item, some text⟩ }
      | _ => reading.input text

end Reading

/-- What a command line asks for. -/
def Arguments.parse (words : List String) : Except Stop Arguments := do
  let reading ← words.foldlM Reading.word .start
  return (← reading.settle).arguments

end Unnest.Command
