/-! A page of indented lines: the text written so far and the current level. -/

namespace Unnest.Script

structure Page where
  text : String
  level : Nat

namespace Page

def blank : Page := ⟨"", 0⟩

/-- Four spaces a level. -/
def indent (level : Nat) : String := String.ofList (List.replicate (4 * level) ' ')

/-- One more line at the current level. -/
def line (text : String) (page : Page) : Page :=
  { page with text := page.text ++ indent page.level ++ text ++ "\n" }

/-- A line with nothing on it, not even the indent. -/
def skipLine (page : Page) : Page := { page with text := page.text ++ "\n" }

/-- Write one level deeper, then come back. -/
def nested (write : Page → Page) (page : Page) : Page :=
  let inner := write { page with level := page.level + 1 }
  { inner with level := inner.level - 1 }

/-- The text without the break that ends its last line. -/
def withoutLastBreak (page : Page) : String := String.ofList page.text.toList.dropLast

end Page

end Unnest.Script
