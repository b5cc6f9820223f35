import Unnest.Text.Ranges

/-! The 25 characters with the property `White_Space`, and text without them at its ends. -/

namespace Unnest.Text

def blankRanges : List (Nat × Nat) := [
  (0x9, 0xd), (0x20, 0x20), (0x85, 0x85), (0xa0, 0xa0), (0x1680, 0x1680), (0x2000, 0x200a),
  (0x2028, 0x2029), (0x202f, 0x202f), (0x205f, 0x205f), (0x3000, 0x3000)
]

def isBlank (c : Char) : Bool := inRanges blankRanges c

/-- The text without the blank characters at its two ends. -/
def trimBlank (text : String) : String :=
  String.ofList (((text.toList.dropWhile isBlank).reverse.dropWhile isBlank).reverse)

example : rangesSize blankRanges = 25 := by decide

end Unnest.Text
