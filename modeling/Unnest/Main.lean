import Unnest.Command.Run

/-! The command-line program: reads the arguments, the files and the standard input,
writes the blocks to the standard output and failures to the standard error. -/

namespace Unnest

open Command

def usage : String :=
  "Flatten labeled statement trees into jump-terminated blocks\n\n" ++
  "Usage: unnest [OPTIONS] [INPUT]\n\n" ++
  "Options: --format <json|text>, --pretty, --no-color, --verify, --exit-label <LABEL>,\n" ++
  "  --anonymous-prefix <PREFIX>, -c, --config <FILE>, --log <FILTER>,\n" ++
  "  --log-format <text|tree|json>, -h, --help, -V, --version\n"

def Command.Stop.message : Stop → String
  | .unknownArgument => "error: unexpected argument\n"
  | .invalidValue => "error: missing or invalid value\n"
  | .argumentConflict => "error: an argument was given more than once\n"
  | .tooManyValues => "error: unexpected value\n"
  | .displayHelp => usage
  | .displayVersion => "unnest 0.1.0\n"

/-- A file system and a standard input that cannot be read give nothing. -/
def surroundings : Surroundings IO where
  fileText path := try return some (← IO.FS.readFile path) catch _ => return none
  inputText := try return some (← (← IO.getStdin).readToEnd) catch _ => return none

def carryOut (arguments : Arguments) : IO UInt32 := do
  let (result, _) ← (invoke surroundings arguments).run.run #[]
  match result with
  | .ok text =>
    let stdout ← IO.getStdout
    stdout.putStr text
    stdout.flush
    return 0
  | .error error =>
    let color := !arguments.noColor && (← (← IO.getStderr).isTty)
    IO.eprintln (renderError color error.chain)
    return error.exitCode.toUInt32

end Unnest

def main (words : List String) : IO UInt32 := do
  match Unnest.Command.Arguments.parse words with
  | .ok arguments => Unnest.carryOut arguments
  | .error stop =>
    if stop.exitCode == 0 then IO.print stop.message else IO.eprint stop.message
    return stop.exitCode.toUInt32
