import Unnest.Json.Basic

/-! Writing JSON text, on one line or indented by two spaces a level. Strings escape the
quote, the backslash and the control characters, and nothing else. -/

namespace Unnest.Json

/-- Where the text breaks into lines, and how far it is indented there. -/
inductive Layout where
  | compact
  | indented (level : Nat)

namespace Layout

def deeper : Layout → Layout
  | .compact => .compact
  | .indented level => .indented (level + 1)

/-- What stands before an item or a closing bracket. -/
def lineBreak : Layout → String
  | .compact => ""
  | .indented level => "\n" ++ String.ofList (List.replicate (2 * level) ' ')

def colon : Layout → String
  | .compact => ":"
  | .indented _ => ": "

end Layout

def hexDigit (n : Nat) : Char := Nat.digitChar n

/-- The written form of one character of a string. -/
def writeChar (c : Char) : List Char :=
  if c = '"' then ['\\', '"']
  else if c = '\\' then ['\\', '\\']
  else if c = '\x08' then ['\\', 'b']
  else if c = '\t' then ['\\', 't']
  else if c = '\n' then ['\\', 'n']
  else if c = '\x0c' then ['\\', 'f']
  else if c = '\r' then ['\\', 'r']
  else if c < ' ' then ['\\', 'u', '0', '0', hexDigit (c.toNat / 16), hexDigit (c.toNat % 16)]
  else [c]

def writeString (text : String) : String :=
  String.ofList ('"' :: text.toList.flatMap writeChar ++ ['"'])

mutual

def write (layout : Layout) : Json → String
  | .null => "null"
  | .boolean true => "true"
  | .boolean false => "false"
  | .number literal => literal
  | .string text => writeString text
  | .array [] => "[]"
  | .array (first :: rest) =>
    "[" ++ layout.deeper.lineBreak ++ first.write layout.deeper ++ writeItems layout.deeper rest ++
      layout.lineBreak ++ "]"
  | .object [] => "\x7b\x7d"
  | .object ((key, first) :: rest) =>
    "\x7b" ++ layout.deeper.lineBreak ++ writeString key ++ layout.colon ++
      first.write layout.deeper ++ writeMembers layout.deeper rest ++ layout.lineBreak ++ "\x7d"

/-- The items after the first one, each after a comma. -/
def writeItems (layout : Layout) : List Json → String
  | [] => ""
  | first :: rest => "," ++ layout.lineBreak ++ first.write layout ++ writeItems layout rest

/-- The members after the first one, each after a comma. -/
def writeMembers (layout : Layout) : List (String × Json) → String
  | [] => ""
  | (key, first) :: rest =>
    "," ++ layout.lineBreak ++ writeString key ++ layout.colon ++ first.write layout ++
      writeMembers layout rest

end

end Unnest.Json
