import Unnest.Script.Basic

/-! Decidable equality of trees: a comparison by structure, and the proof that it
answers `true` exactly on equal trees. -/

namespace Unnest.Script

mutual

def Expr.same : Expr → Expr → Bool
  | .identifier a, .identifier b => a == b
  | .number a, .number b => a == b
  | .string a, .string b => a == b
  | .boolean a, .boolean b => a == b
  | .null, .null => true
  | .unary o a, .unary p b => o == p && a.same b
  | .binary a o b, .binary c p d => a.same c && o == p && b.same d
  | .assign a b, .assign c d => a.same c && b.same d
  | .call f xs, .call g ys => f.same g && sameExprs xs ys
  | .member a p, .member b q => a.same b && p == q
  | .function n ps xs, .function m qs ys => n == m && ps == qs && sameBody xs ys
  | _, _ => false

def sameExprs : List Expr → List Expr → Bool
  | [], [] => true
  | x :: xs, y :: ys => x.same y && sameExprs xs ys
  | _, _ => false

def sameExpr? : Option Expr → Option Expr → Bool
  | none, none => true
  | some x, some y => x.same y
  | _, _ => false

def Stmt.same : Stmt → Stmt → Bool
  | .block xs, .block ys => sameBody xs ys
  | .branch e xs xs', .branch f ys ys' => e.same f && sameBody xs ys && sameBody? xs' ys'
  | .whileLoop e xs, .whileLoop f ys => e.same f && sameBody xs ys
  | .doLoop xs e, .doLoop ys f => sameBody xs ys && e.same f
  | .forLoop s e i xs, .forLoop t f j ys =>
    s.same t && sameExpr? e f && sameExpr? i j && sameBody xs ys
  | .labeled l s, .labeled m t => l == m && s.same t
  | .breakJump l, .breakJump m => l == m
  | .continueJump l, .continueJump m => l == m
  | .goto l, .goto m => l == m
  | .ret e, .ret f => sameExpr? e f
  | .throw e, .throw f => e.same f
  | .expression e, .expression f => e.same f
  | .empty, .empty => true
  | .switch e cs, .switch f ds => e.same f && sameCases cs ds
  | .function n ps xs, .function m qs ys => n == m && ps == qs && sameBody xs ys
  | _, _ => false

def sameBody : List Stmt → List Stmt → Bool
  | [], [] => true
  | x :: xs, y :: ys => x.same y && sameBody xs ys
  | _, _ => false

def sameBody? : Option (List Stmt) → Option (List Stmt) → Bool
  | none, none => true
  | some xs, some ys => sameBody xs ys
  | _, _ => false

def Case.same : Case → Case → Bool
  | .clause e xs, .clause f ys => sameExpr? e f && sameBody xs ys

def sameCases : List Case → List Case → Bool
  | [], [] => true
  | x :: xs, y :: ys => x.same y && sameCases xs ys
  | _, _ => false

end

mutual

theorem Expr.same_iff (a b : Expr) : a.same b = true ↔ a = b := by
  cases a <;> cases b <;>
    simp [Expr.same, Expr.same_iff, sameExprs_iff, sameBody_iff, and_assoc]
termination_by structural a

theorem sameExprs_iff (a b : List Expr) : sameExprs a b = true ↔ a = b := by
  cases a <;> cases b <;> simp [sameExprs, Expr.same_iff, sameExprs_iff]
termination_by structural a

theorem sameExpr?_iff (a b : Option Expr) : sameExpr? a b = true ↔ a = b := by
  cases a <;> cases b <;> simp [sameExpr?, Expr.same_iff]
termination_by structural a

theorem Stmt.same_iff (a b : Stmt) : a.same b = true ↔ a = b := by
  cases a <;> cases b <;>
    simp [Stmt.same, Expr.same_iff, sameExpr?_iff, Stmt.same_iff, sameBody_iff, sameBody?_iff,
      sameCases_iff, and_assoc]
termination_by structural a

theorem sameBody_iff (a b : List Stmt) : sameBody a b = true ↔ a = b := by
  cases a <;> cases b <;> simp [sameBody, Stmt.same_iff, sameBody_iff]
termination_by structural a

theorem sameBody?_iff (a b : Option (List Stmt)) : sameBody? a b = true ↔ a = b := by
  cases a <;> cases b <;> simp [sameBody?, sameBody_iff]
termination_by structural a

theorem Case.same_iff (a b : Case) : a.same b = true ↔ a = b := by
  cases a; cases b; simp [Case.same, sameExpr?_iff, sameBody_iff]
termination_by structural a

theorem sameCases_iff (a b : List Case) : sameCases a b = true ↔ a = b := by
  cases a <;> cases b <;> simp [sameCases, Case.same_iff, sameCases_iff]
termination_by structural a

end

instance : DecidableEq Expr := fun a b => decidable_of_iff _ (Expr.same_iff a b)
instance : DecidableEq Stmt := fun a b => decidable_of_iff _ (Stmt.same_iff a b)
instance : DecidableEq Case := fun a b => decidable_of_iff _ (Case.same_iff a b)

deriving instance DecidableEq for LabeledBlock

end Unnest.Script
