import Unnest.Command.Arguments
import Unnest.Command.Error
import Unnest.Json.Reader
import Unnest.Script.Decode

/-! The configuration file, and the options that result from the defaults, the file and
the command line, later ones winning. -/

namespace Unnest.Command

open Flatten

structure Configuration where
  exitLabel : Option String
  anonymousPrefix : Option String
  log : Option String
  logFormat : Option LogFormat

namespace Configuration

def keys : List String := ["exitLabel", "anonymousPrefix", "log", "logFormat"]

/-- A format's name, on its own or as the only key of an object that holds null. -/
def decodeLogFormat : Json → Option LogFormat
  | .string name => LogFormat.ofName? name
  | .object [(name, .null)] => LogFormat.ofName? name
  | _ => none

/-- An object with known keys, none of them twice, or an array of the values in order. -/
def wellFormed : Json → Bool
  | .object members =>
    let given := members.map Prod.fst
    given.all keys.contains && given.eraseDups.length == given.length
  | _ => true

def decode (value : Json) : Option Configuration := do
  if !wellFormed value then none
  match ← Script.fieldValues keys value with
  | [exitLabel, anonymousPrefix, log, logFormat] =>
    return {
      exitLabel := ← Script.optional Script.decodeString exitLabel
      anonymousPrefix := ← Script.optional Script.decodeString anonymousPrefix
      log := ← Script.optional Script.decodeString log
      logFormat := ← Script.optional decodeLogFormat logFormat }
  | _ => none

/-- A configuration from its text. -/
def parse (source : String) : Option Configuration :=
  (Json.parse Json.maximalDepth source).bind decode

end Configuration

/-- The options of a run. -/
def resolveOptions (config : Option Configuration) (arguments : Arguments) :
    Except Options.Fault Options := do
  let fromFile := fun (key : Configuration → Option String) => config.bind key
  let options : Options := {
    exitLabel := (arguments.exitLabel <|> fromFile Configuration.exitLabel).getD
      Options.standard.exitLabel
    anonymousPrefix := (arguments.anonymousPrefix <|> fromFile Configuration.anonymousPrefix).getD
      Options.standard.anonymousPrefix }
  options.validate
  return options

/-- The options of a run, reported once they are known to be valid. -/
def resolveOptionsRecorded (config : Option Configuration) (arguments : Arguments) :
    Recording RunError Options := do
  match resolveOptions config arguments with
  | .error fault => throw (.options fault)
  | .ok options =>
    report (.resolvedOptions options.exitLabel options.anonymousPrefix)
    return options

end Unnest.Command
