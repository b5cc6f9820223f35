import Unnest.Text.DefaultIgnorable
import Unnest.Text.GraphemeExtend
import Unnest.Text.Unprintable

/-! Quoted text: double quotes around the characters, with backslash escapes for what
could not be read back from the page. An apostrophe stays as it is. -/

namespace Unnest.Text

/-- Lower-case hexadecimal digits, without leading zeros. -/
def hexDigits (n : Nat) : List Char := Nat.toDigits 16 n

/-- On a page the character would be missing, or lost on its neighbour. -/
def isHidden (c : Char) : Bool := isAttached c || isDefaultIgnorable c || isUnprintable c

/-- The written form of one character between the quotes. -/
def escapeChar (c : Char) : List Char :=
  if c = '"' then ['\\', '"']
  else if c = '\\' then ['\\', '\\']
  else if c = '\n' then ['\\', 'n']
  else if c = '\r' then ['\\', 'r']
  else if c = '\t' then ['\\', 't']
  else if c = '\x00' then ['\\', '0']
  else if isHidden c then
    ['\\', 'u', '\x7b'] ++ hexDigits c.toNat ++ ['\x7d']
  else [c]

/-- The text between double quotes, escaped. -/
def quoted (text : String) : String :=
  String.ofList ('"' :: text.toList.flatMap escapeChar ++ ['"'])

end Unnest.Text
