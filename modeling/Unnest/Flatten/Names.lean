/-! Block names: those already bound, and those made up from a stem and a counter. -/

namespace Unnest.Flatten

/-- The names bound so far, the latest first. -/
structure Registry where
  names : List String

namespace Registry

def empty : Registry := ⟨[]⟩

def isBound (registry : Registry) (name : String) : Bool := registry.names.contains name

/-- Bind a name, unless it is bound already. -/
def bind? (name : String) (registry : Registry) : Option Registry :=
  if registry.isBound name then none else some ⟨name :: registry.names⟩

def size (registry : Registry) : Nat := registry.names.length

end Registry

/-- A source of names: the stem followed by 0, 1, 2 and so on. -/
structure Mint where
  stem : String
  minted : Nat

namespace Mint

def start (stem : String) : Mint := ⟨stem, 0⟩

def nameAt (stem : String) (index : Nat) : String := stem ++ toString index

/-- The next name, and the source after it. -/
def next (mint : Mint) : String × Mint :=
  (nameAt mint.stem mint.minted, { mint with minted := mint.minted + 1 })

end Mint

end Unnest.Flatten
