import Unnest.Script.Basic

/-! The weight of a statement: two for itself and the weights of its children. It bounds
how often flattening can step into the statement. -/

namespace Unnest.Script

namespace Stmt

def weight (statement : Stmt) : Nat :=
  2 + statement.children.attach.foldr (fun child total => child.val.weight + total) 0
termination_by sizeOf statement
decreasing_by exact sizeOf_lt_of_mem_children child.property

theorem weight_eq (statement : Stmt) :
    statement.weight = 2 + statement.children.foldr (fun child total => child.weight + total) 0 := by
  rw [weight]
  exact congrArg (2 + ·) (@List.foldr_attach _ _ _ (fun child total => weight child + total) 0)

end Stmt

/-- The weights of all statements of a body. -/
def weight (body : List Stmt) : Nat :=
  body.foldr (fun statement total => statement.weight + total) 0

@[simp] theorem weight_nil : weight [] = 0 := rfl

@[simp] theorem weight_cons (first : Stmt) (rest : List Stmt) :
    weight (first :: rest) = first.weight + weight rest := rfl

@[simp] theorem weight_append (front back : List Stmt) :
    weight (front ++ back) = weight front + weight back := by
  induction front with
  | nil => simp
  | cons first rest ih => rw [List.cons_append, weight_cons, weight_cons, ih, Nat.add_assoc]

theorem Stmt.weight_children (statement : Stmt) :
    statement.weight = 2 + Script.weight statement.children :=
  statement.weight_eq

end Unnest.Script
