/-! Number literals, and the rule that says which of them are in range: a value that
would round to an infinite 64-bit float is refused. -/

namespace Unnest.Json.Number

/-- The parts of a literal without its sign: digits before the point, after it, and the
exponent. -/
structure Literal where
  whole : List Char
  fraction : List Char
  exponent : Int

def digitValue (c : Char) : Nat := c.toNat - '0'.toNat

/-- The number that decimal digits denote. -/
def decimal (digits : List Char) : Nat :=
  digits.foldl (fun value c => value * 10 + digitValue c) 0

/-- Append digits to a significand while it fits 64 bits; the digits left over come second. -/
def accumulate (significand : Nat) : List Char → Nat × List Char
  | [] => (significand, [])
  | c :: rest =>
    let next := significand * 10 + digitValue c
    if next < 2 ^ 64 then accumulate next rest else (significand, c :: rest)

/-- Keep the 53 highest bits, to nearest, a tie to the even neighbour. -/
def roundToFloat (n : Nat) : Nat :=
  let excess := n.log2 + 1 - 53
  let unit := Nat.pow 2 excess
  let kept := n / unit
  let rest := n % unit
  if 2 * rest > unit || (2 * rest == unit && kept % 2 == 1) then (kept + 1) * unit
  else kept * unit

/-- Products from here on round to infinity. -/
def overflowBound : Nat := Nat.pow 2 1024 - Nat.pow 2 970

/-- The significand takes the digits that fit 64 bits, and the scale the places of the
rest. Zero is always in range, and so is what only scales down. -/
def Literal.inRange (literal : Literal) : Bool :=
  let (whole, dropped) := accumulate 0 literal.whole
  let (significand, ignored) := accumulate whole literal.fraction
  let used := literal.fraction.length - ignored.length
  let scale := (dropped.length : Int) - used + literal.exponent
  significand == 0 || scale < 0 ||
    (scale ≤ 308 && roundToFloat significand * roundToFloat (Nat.pow 10 scale.toNat) < overflowBound)

/-- Some digits, and what follows them. -/
def digits (cs : List Char) : Option (List Char × List Char) :=
  match cs.span Char.isDigit with
  | ([], _) => none
  | found => some found

/-- Digits without a leading zero, or a single zero. -/
def wholePart : List Char → Option (List Char × List Char)
  | '0' :: c :: rest => if c.isDigit then none else some (['0'], c :: rest)
  | cs => digits cs

def fractionPart : List Char → Option (List Char × List Char)
  | '.' :: cs => digits cs
  | cs => some ([], cs)

def exponentPart : List Char → Option (Int × List Char)
  | c :: cs =>
    if c = 'e' ∨ c = 'E' then
      match cs with
      | '-' :: cs => (digits cs).map fun (found, rest) => (-(decimal found : Int), rest)
      | '+' :: cs => (digits cs).map fun (found, rest) => ((decimal found : Int), rest)
      | cs => (digits cs).map fun (found, rest) => ((decimal found : Int), rest)
    else some (0, c :: cs)
  | [] => some (0, [])

/-- Read a literal and check its range. -/
def read (cs : List Char) : Option (Literal × List Char) := do
  let unsigned := match cs with
    | '-' :: rest => rest
    | _ => cs
  let (whole, afterWhole) ← wholePart unsigned
  let (fraction, afterFraction) ← fractionPart afterWhole
  let (exponent, rest) ← exponentPart afterFraction
  let literal : Literal := ⟨whole, fraction, exponent⟩
  if literal.inRange then some (literal, rest) else none

end Unnest.Json.Number
