import Unnest.Json.Basic
import Unnest.Json.Number

/-! Reading JSON text. The grammar is the strict one: four blank characters, no comments,
no trailing commas, no raw control characters, no lone surrogates, and nothing after the
value. A reader gives what it found and the characters after it; arrays and objects may
nest as deep as it is told. -/

namespace Unnest.Json

def isSpace (c : Char) : Bool := c == ' ' || c == '\t' || c == '\n' || c == '\r'

def skipSpace (cs : List Char) : List Char := cs.dropWhile isSpace

def hexValue (c : Char) : Option Nat :=
  if c.isDigit then some (c.toNat - '0'.toNat)
  else if 'a' ≤ c ∧ c ≤ 'f' then some (c.toNat - 'a'.toNat + 10)
  else if 'A' ≤ c ∧ c ≤ 'F' then some (c.toNat - 'A'.toNat + 10)
  else none

/-- Four hexadecimal digits: one unit of 16 bits. -/
def codeUnit : List Char → Option (Nat × List Char)
  | a :: b :: c :: d :: rest => do
    let a ← hexValue a
    let b ← hexValue b
    let c ← hexValue c
    let d ← hexValue d
    some (((a * 16 + b) * 16 + c) * 16 + d, rest)
  | _ => none

/-- The character of one unit, or of a high surrogate and the low one that must follow. -/
def unicodeEscape (cs : List Char) : Option (Char × List Char) := do
  let (unit, rest) ← codeUnit cs
  if 0xd800 ≤ unit ∧ unit < 0xdc00 then
    match rest with
    | '\\' :: 'u' :: rest =>
      let (low, rest) ← codeUnit rest
      if 0xdc00 ≤ low ∧ low < 0xe000 then
        some (Char.ofNat (0x10000 + (unit - 0xd800) * 0x400 + (low - 0xdc00)), rest)
      else none
    | _ => none
  else if 0xdc00 ≤ unit ∧ unit < 0xe000 then none
  else some (Char.ofNat unit, rest)

/-- The character that an escape stands for, read after its backslash. -/
def escape : List Char → Option (Char × List Char)
  | '"' :: rest => some ('"', rest)
  | '\\' :: rest => some ('\\', rest)
  | '/' :: rest => some ('/', rest)
  | 'b' :: rest => some ('\x08', rest)
  | 'f' :: rest => some ('\x0c', rest)
  | 'n' :: rest => some ('\n', rest)
  | 'r' :: rest => some ('\r', rest)
  | 't' :: rest => some ('\t', rest)
  | 'u' :: rest => unicodeEscape rest
  | _ => none

/-- A string's characters up to its closing quote. Those read so far come reversed. -/
def stringBody : (limit : Nat) → (reversed : List Char) → List Char → Option (String × List Char)
  | limit + 1, reversed, c :: rest =>
    if c = '"' then some (String.ofList reversed.reverse, rest)
    else if c = '\\' then
      match escape rest with
      | some (escaped, rest) => stringBody limit (escaped :: reversed) rest
      | none => none
    else if c < ' ' then none
    else stringBody limit (c :: reversed) rest
  | _, _, _ => none

/-- Items separated by commas, at least one, up to the closing bracket. -/
def series {α : Type} (item : List Char → Option (α × List Char)) (close : Char) :
    (limit : Nat) → List Char → Option (List α × List Char)
  | 0, _ => none
  | limit + 1, cs => do
    let (first, rest) ← item (skipSpace cs)
    match skipSpace rest with
    | [] => none
    | c :: rest =>
      if c = ',' then
        let (others, rest) ← series item close limit rest
        some (first :: others, rest)
      else if c = close then some ([first], rest)
      else none

/-- Items between brackets, read after the opening one. -/
def bracketed {α : Type} (item : List Char → Option (α × List Char)) (close : Char) (limit : Nat)
    (cs : List Char) : Option (List α × List Char) :=
  match skipSpace cs with
  | c :: rest => if c = close then some ([], rest) else series item close limit (c :: rest)
  | [] => none

/-- A key, a colon and a value. -/
def memberOf (value : List Char → Option (Json × List Char)) (limit : Nat) :
    List Char → Option ((String × Json) × List Char)
  | '"' :: rest => do
    let (key, rest) ← stringBody limit [] rest
    match skipSpace rest with
    | ':' :: rest =>
      let (value, rest) ← value (skipSpace rest)
      some ((key, value), rest)
    | _ => none
  | _ => none

/-- A fixed word, and the value that it stands for. -/
def word (letters : String) (value : Json) (cs : List Char) : Option (Json × List Char) :=
  (letters.toList.isPrefixOf? cs).map fun rest => (value, rest)

/-- A value that is neither an array nor an object. -/
def scalar (limit : Nat) : List Char → Option (Json × List Char)
  | '"' :: rest => (stringBody limit [] rest).map fun (text, rest) => (.string text, rest)
  | 'n' :: rest => word "ull" .null rest
  | 't' :: rest => word "rue" (.boolean true) rest
  | 'f' :: rest => word "alse" (.boolean false) rest
  | cs => (Number.read cs).map fun (_, rest) =>
      (.number (String.ofList (cs.take (cs.length - rest.length))), rest)

/-- A value in which arrays and objects nest at most `depth` times. The limit bounds the
length of strings and lists. -/
def value (limit : Nat) : (depth : Nat) → List Char → Option (Json × List Char)
  | depth + 1, '[' :: rest =>
    (bracketed (value limit depth) ']' limit rest).map fun (items, rest) => (.array items, rest)
  | depth + 1, '\x7b' :: rest =>
    (bracketed (memberOf (value limit depth) limit) '\x7d' limit rest).map
      fun (members, rest) => (.object members, rest)
  | _, cs => scalar limit cs

/-- The value that a whole text denotes, nested at most `depth` times. -/
def parse (depth : Nat) (text : String) : Option Json :=
  let cs := text.toList
  match value (cs.length + 1) depth (skipSpace cs) with
  | some (found, rest) => if (skipSpace rest).isEmpty then some found else none
  | none => none

/-- Texts nest at most this deep. -/
def maximalDepth : Nat := 127

end Unnest.Json
