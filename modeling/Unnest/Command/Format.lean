/-! The formats in which blocks and logs are written, and their names. -/

namespace Unnest.Command

/-- How the block list is written. -/
inductive OutputFormat where
  | json
  | text
  deriving DecidableEq

def OutputFormat.name : OutputFormat → String
  | .json => "json"
  | .text => "text"

/-- How log lines are written. -/
inductive LogFormat where
  | text
  | tree
  | json
  deriving DecidableEq

def LogFormat.name : LogFormat → String
  | .text => "text"
  | .tree => "tree"
  | .json => "json"

/-- Letters of the Latin alphabet in lower case, everything else as it is. -/
def lowerLatin (text : String) : String := String.ofList (text.toList.map Char.toLower)

def OutputFormat.all : List OutputFormat := [.json, .text]

def LogFormat.all : List LogFormat := [.text, .tree, .json]

/-- A format by its exact name. -/
def LogFormat.ofName? (name : String) : Option LogFormat :=
  LogFormat.all.find? fun format => format.name == name

/-- A format by its name, in capitals or not. -/
def LogFormat.ofWord? (word : String) : Option LogFormat := LogFormat.ofName? (lowerLatin word)

/-- A format by its name, in capitals or not. -/
def OutputFormat.ofWord? (word : String) : Option OutputFormat :=
  OutputFormat.all.find? fun format => format.name == lowerLatin word

end Unnest.Command
