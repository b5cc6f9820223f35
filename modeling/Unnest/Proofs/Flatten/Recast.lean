import Unnest.Proofs.Flatten.Equivariant

/-! Expressions and nested functions are opaque to flattening. -/

namespace Unnest.Script

/-- Other expressions and other nested functions under the same names. -/
def Rewording.recasting (expression : Expr → Expr) (function : Stmt → Stmt)
    (negate : ∀ operand, expression operand.negate = (expression operand).negate)
    (nested : ∀ statement, statement.kind = .function → (function statement).kind = .function) :
    Rewording :=
  ⟨id, expression, function, negate, nested⟩

/-- The expression with everything below its negations left out. -/
def Expr.blur : Expr → Expr
  | .unary "!" operand => .unary "!" operand.blur
  | _ => .null

/-- Nothing is left of expressions but their negations, and nothing of functions. -/
def Rewording.blurring : Rewording :=
  .recasting Expr.blur (fun _ => .function "" [] []) (fun _ => rfl) (fun _ _ => rfl)

end Unnest.Script

namespace Unnest.Flatten
open Script

theorem FlattenError.reword_of_name {words : Rewording} (keeps : words.name = id)
    (fault : FlattenError) : fault.reword words = fault := by
  cases fault <;> simp only [reword, keeps, id]

/-- What keeps the names keeps the checks before a run. -/
theorem precheck_reword_of_name {words : Rewording} (keeps : words.name = id) (options : Options)
    (body : List Stmt) : precheck options (reword words body) = precheck options body := by
  unfold precheck
  rw [labels_reword, keeps, List.map_id]

theorem flatten_reword_of_name {words : Rewording} (keeps : words.name = id) (options : Options)
    (body : List Stmt) : flatten options (reword words body) =
      (flatten options body).map (List.map (LabeledBlock.reword words)) := by
  have apart : Function.Injective words.name := keeps ▸ Function.injective_id
  have same {α : Type} (result : Except FlattenError α) :
      result.mapError (FlattenError.reword words) = result := by
    cases result with
    | ok value => rfl
    | error fault => exact congrArg Except.error (fault.reword_of_name keeps)
  have checked : precheck options (reword words body) =
      (precheck options body).mapError (FlattenError.reword words) := by
    rw [same, precheck_reword_of_name keeps]
  rw [flatten_reword apart (congrFun keeps _) (fun _ => congrFun keeps _) checked, same]

/-- Flattening with other expressions and nested functions gives the same blocks with these
expressions and functions, or the same failure. So bodies that differ only there flatten
alike. -/
theorem flatten_recast (options : Options) (expression : Expr → Expr) (function : Stmt → Stmt)
    (negate : ∀ operand, expression operand.negate = (expression operand).negate)
    (nested : ∀ statement, statement.kind = .function → (function statement).kind = .function)
    (body : List Stmt) :
    flatten options (reword (.recasting expression function negate nested) body) =
        (flatten options body).map
          (List.map (LabeledBlock.reword (.recasting expression function negate nested))) ∧
      ∀ other, reword (.recasting expression function negate nested) other =
          reword (.recasting expression function negate nested) body →
        (flatten options other).map
            (List.map (LabeledBlock.reword (.recasting expression function negate nested))) =
          (flatten options body).map
            (List.map (LabeledBlock.reword (.recasting expression function negate nested))) := by
  have keeps : (Rewording.recasting expression function negate nested).name = id := rfl
  have law := flatten_reword_of_name keeps options
  refine ⟨law body, fun other same => ?_⟩
  rw [← law other, same, law body]

/-- A loop whose condition and whose labeled function hold labels and jumps of their own. -/
def noisyLoop : List Stmt :=
  [.whileLoop (.function none [] [.labeled "L" (.goto "M")])
    [.labeled "L" (.function "f" ["x"] [.labeled "L" .empty, .breakJump (some "M")])]]

theorem flatten_noisyLoop : flatten .standard noisyLoop = .ok [
    ⟨"$sm0", [.ifThen (.negate (.function none [] [.labeled "L" (.goto "M")])) [.goto "$exit"],
      .goto "L"]⟩,
    ⟨"L", [.function "f" ["x"] [.labeled "L" .empty, .breakJump (some "M")], .goto "$sm0"]⟩] := by
  cbv

theorem flatten_recast_noisyLoop :
    flatten .standard (reword .blurring noisyLoop) = .ok [
      ⟨"$sm0", [.ifThen (.negate .null) [.goto "$exit"], .goto "L"]⟩,
      ⟨"L", [.function "" [] [], .goto "$sm0"]⟩] := by
  have law := (flatten_recast .standard Expr.blur (fun _ => .function "" [] [])
    (fun _ => rfl) (fun _ _ => rfl) noisyLoop).1
  rw [flatten_noisyLoop] at law
  exact law

end Unnest.Flatten
