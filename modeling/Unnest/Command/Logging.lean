import Unnest.Command.Configuration
import Unnest.Text.Blank

/-! Which log lines are written and how: the environment first, then the configuration
file, then the command line, later ones winning. -/

namespace Unnest.Command

structure LogSettings where
  /-- Without a filter, nothing is logged. -/
  filter : Option String
  format : LogFormat

namespace LogSettings

/-- The settings of an environment. A format that is none counts as not given. -/
def ofEnvironment (value? : String → Option String) : LogSettings where
  filter := value? "STATEFLAT_LOG" <|> value? "RUST_LOG"
  format := ((value? "STATEFLAT_LOG_FORMAT").bind LogFormat.ofWord?).getD .text

/-- Settings with some of them replaced. -/
def override (filter : Option String) (format : Option LogFormat) (settings : LogSettings) :
    LogSettings where
  filter := filter <|> settings.filter
  format := format.getD settings.format

/-- The settings of a run. -/
def resolve (base : LogSettings) (config : Option Configuration) (arguments : Arguments) :
    LogSettings :=
  (base.override (config.bind Configuration.log) (config.bind Configuration.logFormat)).override
    arguments.log arguments.logFormat

end LogSettings

def levels : List String := ["trace", "debug", "info", "warn", "error", "off"]

/-- The parts of the program that a bare level turns on. -/
def levelTargets : List String := ["stateflat", "stateflat_flatten", "stateflat_ir"]

/-- A bare level, in capitals or not and with blanks around it, becomes a directive for
each part. Anything else is passed on as it is. -/
def filterDirectives (filter : String) : String :=
  let level := lowerLatin (Text.trimBlank filter)
  if levels.contains level then
    ",".intercalate (levelTargets.map fun target => target ++ "=" ++ level)
  else filter

end Unnest.Command
