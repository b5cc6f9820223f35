/-! JSON values. Objects keep their members in the order written, repeated keys
included, and numbers keep the literal that was written. -/

namespace Unnest

inductive Json where
  | null
  | boolean (value : Bool)
  | number (literal : String)
  | string (value : String)
  | array (items : List Json)
  | object (members : List (String × Json))

instance : Inhabited Json := ⟨.null⟩

namespace Json

/-- An integer's literal. -/
def ofNat (n : Nat) : Json := .number (toString n)

/-- A value that may be missing, written as null. -/
def ofOption {α : Type} (write : α → Json) : Option α → Json
  | some value => write value
  | none => .null

/-- A list, written as an array. -/
def ofList {α : Type} (write : α → Json) (values : List α) : Json := .array (values.map write)

/-- The member of that key. A repeated key keeps the last value. -/
def lookup (key : String) (members : List (String × Json)) : Option Json :=
  members.reverse.lookup key

mutual

/-- How many arrays and objects nest. -/
def depth : Json → Nat
  | .array items => itemsDepth items + 1
  | .object members => membersDepth members + 1
  | _ => 0

def itemsDepth : List Json → Nat
  | [] => 0
  | first :: rest => max first.depth (itemsDepth rest)

def membersDepth : List (String × Json) → Nat
  | [] => 0
  | (_, first) :: rest => max first.depth (membersDepth rest)

end

end Json

end Unnest
