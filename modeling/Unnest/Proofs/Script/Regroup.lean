import Unnest.Script.ExprText

/-! Which groupings the printed form of an expression does not show. Nothing is put around an
operator in front of a call target or member object, nor around an assignment that is the target of
another. So each text has one canonical expression: operators in front stand outside calls and
members, and assignments group to the right. -/

namespace Unnest.Script
namespace Expr

def isUnary : Expr → Bool
  | .unary .. => true
  | _ => false

def isAssign : Expr → Bool
  | .assign .. => true
  | _ => false

theorem isAssign_of_not_compound {expression : Expr} (simple : expression.isCompound = false) :
    expression.isAssign = false := by
  cases expression with
  | assign => cases simple
  | _ => rfl

/-- Build on what stands behind the operators in front. -/
def behindOperators (build : Expr → Expr) : Expr → Expr
  | .unary operator operand => .unary operator (behindOperators build operand)
  | expression => build expression

/-- A chain of assignments with one more value at its end. -/
def chain : Expr → Expr → Expr
  | .assign target value, last => .assign target (chain value last)
  | target, last => .assign target last

mutual

/-- The canonical expression with the same text. -/
def regroup : Expr → Expr
  | .unary operator operand => .unary operator operand.regroup
  | .binary left operator right => .binary left.regroup operator right.regroup
  | .assign target value => chain target.regroup value.regroup
  | .call callee arguments => behindOperators (.call · (regroupAll arguments)) callee.regroup
  | .member object property => behindOperators (.member · property) object.regroup
  | expression => expression

def regroupAll : List Expr → List Expr
  | [] => []
  | first :: rest => first.regroup :: regroupAll rest

end

mutual

/-- No operator stands in front of a call target or member object, and no assignment is the target
of another. -/
def isGrouped : Expr → Bool
  | .unary _ operand => operand.isGrouped
  | .binary left _ right => left.isGrouped && right.isGrouped
  | .assign target value => !target.isAssign && target.isGrouped && value.isGrouped
  | .call callee arguments => !callee.isUnary && callee.isGrouped && allGrouped arguments
  | .member object _ => !object.isUnary && object.isGrouped
  | _ => true

def allGrouped : List Expr → Bool
  | [] => true
  | first :: rest => first.isGrouped && allGrouped rest

end

section Canonical

variable {build : Expr → Expr}

theorem behindOperators_of_not_unary {expression : Expr} (plain : expression.isUnary = false) :
    behindOperators build expression = build expression := by
  cases expression with
  | unary => cases plain
  | _ => rfl

theorem chain_of_not_assign {target : Expr} (plain : target.isAssign = false) (last : Expr) :
    chain target last = .assign target last := by
  cases target with
  | assign => cases plain
  | _ => rfl

theorem chain_chain (first second last : Expr) :
    chain (chain first second) last = chain first (chain second last) := by
  cases first with
  | assign target value => rw [chain, chain, chain, chain_chain value second last]
  | _ => rfl

theorem isGrouped_behindOperators (simple : ∀ expression,
      expression.isUnary = false → expression.isGrouped = true → (build expression).isGrouped = true)
    (operand : Expr) (grouped : operand.isGrouped = true) :
    (behindOperators build operand).isGrouped = true := by
  cases operand with
  | unary operator inner => exact isGrouped_behindOperators simple inner grouped
  | _ => exact simple _ rfl grouped

theorem isGrouped_chain (target : Expr) {last : Expr} (grouped : target.isGrouped = true)
    (behind : last.isGrouped = true) : (chain target last).isGrouped = true := by
  cases target with
  | assign first value =>
    rw [isGrouped, Bool.and_eq_true] at grouped
    rw [chain, isGrouped, grouped.1, isGrouped_chain value grouped.2 behind, Bool.and_true]
  | _ =>
    rw [chain_of_not_assign rfl, isGrouped, grouped, behind]
    rfl

mutual

theorem isGrouped_regroup (expression : Expr) : expression.regroup.isGrouped = true := by
  cases expression with
  | unary operator operand => exact isGrouped_regroup operand
  | binary left operator right =>
    rw [regroup, isGrouped, isGrouped_regroup left, isGrouped_regroup right, Bool.and_true]
  | assign target value =>
    exact isGrouped_chain _ (isGrouped_regroup target) (isGrouped_regroup value)
  | call callee arguments =>
    refine isGrouped_behindOperators (fun target plain grouped => ?_) _ (isGrouped_regroup callee)
    rw [isGrouped, plain, grouped, allGrouped_regroupAll arguments]
    rfl
  | member object property =>
    refine isGrouped_behindOperators (fun target plain grouped => ?_) _ (isGrouped_regroup object)
    rw [isGrouped, plain, grouped]
    rfl
  | _ => rfl

theorem allGrouped_regroupAll (arguments : List Expr) :
    allGrouped (regroupAll arguments) = true := by
  cases arguments with
  | nil => rfl
  | cons first rest =>
    rw [regroupAll, allGrouped, isGrouped_regroup first, allGrouped_regroupAll rest, Bool.and_true]

end

mutual

theorem regroup_of_isGrouped (expression : Expr) (grouped : expression.isGrouped = true) :
    expression.regroup = expression := by
  cases expression with
  | unary operator operand => rw [regroup, regroup_of_isGrouped operand grouped]
  | binary left operator right =>
    rw [isGrouped, Bool.and_eq_true] at grouped
    rw [regroup, regroup_of_isGrouped left grouped.1, regroup_of_isGrouped right grouped.2]
  | assign target value =>
    rw [isGrouped, Bool.and_eq_true, Bool.and_eq_true, Bool.not_eq_true'] at grouped
    obtain ⟨⟨plain, targetGrouped⟩, valueGrouped⟩ := grouped
    rw [regroup, regroup_of_isGrouped target targetGrouped, regroup_of_isGrouped value valueGrouped,
      chain_of_not_assign plain]
  | call callee arguments =>
    rw [isGrouped, Bool.and_eq_true, Bool.and_eq_true, Bool.not_eq_true'] at grouped
    obtain ⟨⟨plain, calleeGrouped⟩, allGrouped⟩ := grouped
    rw [regroup, regroup_of_isGrouped callee calleeGrouped, regroupAll_of_allGrouped _ allGrouped,
      behindOperators_of_not_unary plain]
  | member object property =>
    rw [isGrouped, Bool.and_eq_true, Bool.not_eq_true'] at grouped
    rw [regroup, regroup_of_isGrouped object grouped.2, behindOperators_of_not_unary grouped.1]
  | _ => rfl

theorem regroupAll_of_allGrouped (arguments : List Expr) (grouped : allGrouped arguments = true) :
    regroupAll arguments = arguments := by
  cases arguments with
  | nil => rfl
  | cons first rest =>
    rw [allGrouped, Bool.and_eq_true] at grouped
    rw [regroupAll, regroup_of_isGrouped first grouped.1, regroupAll_of_allGrouped rest grouped.2]

end

end Canonical

section Text

/-- What is built behind operators adds to the text of the operand. -/
theorem text_behindOperators {build : Expr → Expr} {suffix : String}
    (simple : ∀ expression, (build expression).isCompound = false)
    (adds : ∀ expression, (build expression).text =
      operandText expression.isCompound expression.text ++ suffix) (operand : Expr) :
    (behindOperators build operand).isCompound = false ∧ (behindOperators build operand).text =
      operandText operand.isCompound operand.text ++ suffix := by
  cases operand with
  | unary operator inner =>
    obtain ⟨flat, same⟩ := text_behindOperators simple adds inner
    refine ⟨rfl, ?_⟩
    rw [behindOperators, text, flat, same]
    exact (String.append_assoc ..).symm
  | _ => exact ⟨simple _, adds _⟩

theorem text_behindCall (arguments : List Expr) (callee : Expr) :
    (behindOperators (.call · arguments) callee).isCompound = false ∧
      (behindOperators (.call · arguments) callee).text =
        operandText callee.isCompound callee.text ++ ("(" ++ argumentsText arguments ++ ")") :=
  text_behindOperators (fun _ => rfl)
    (fun _ => by rw [text, String.append_assoc, String.append_assoc, String.append_assoc]) callee

theorem text_behindMember (property : String) (object : Expr) :
    (behindOperators (.member · property) object).isCompound = false ∧
      (behindOperators (.member · property) object).text =
        operandText object.isCompound object.text ++ ("." ++ property) :=
  text_behindOperators (fun _ => rfl) (fun _ => by rw [text, String.append_assoc]) object

theorem text_chain (target last : Expr) :
    (chain target last).isCompound = true ∧
      (chain target last).text = target.text ++ " = " ++ last.text := by
  cases target with
  | assign first value =>
    refine ⟨rfl, ?_⟩
    rw [chain, text, (text_chain value last).2, text]
    simp only [String.append_assoc]
  | _ => exact ⟨rfl, rfl⟩

theorem isCompound_regroup (expression : Expr) :
    expression.regroup.isCompound = expression.isCompound := by
  cases expression with
  | assign target value => exact (text_chain _ _).1
  | call callee arguments => exact (text_behindCall _ _).1
  | member object property => exact (text_behindMember _ _).1
  | _ => rfl

mutual

/-- Regrouping does not show. -/
theorem text_regroup (expression : Expr) : expression.regroup.text = expression.text := by
  cases expression with
  | unary operator operand =>
    rw [regroup, text, text, isCompound_regroup, text_regroup operand]
  | binary left operator right =>
    rw [regroup, text, text, isCompound_regroup, isCompound_regroup, text_regroup left,
      text_regroup right]
  | assign target value =>
    rw [regroup, (text_chain _ _).2, text_regroup target, text_regroup value, text]
  | call callee arguments =>
    rw [regroup, (text_behindCall _ _).2, isCompound_regroup, text_regroup callee,
      argumentsText_regroupAll, text, String.append_assoc, String.append_assoc,
      String.append_assoc]
  | member object property =>
    rw [regroup, (text_behindMember _ _).2, isCompound_regroup, text_regroup object, text,
      String.append_assoc]
  | _ => rfl

theorem argumentsText_regroupAll (arguments : List Expr) :
    argumentsText (regroupAll arguments) = argumentsText arguments := by
  match arguments with
  | [] => rfl
  | [last] => exact text_regroup last
  | first :: second :: rest =>
    have others := argumentsText_regroupAll (second :: rest)
    rw [regroupAll] at others
    rw [regroupAll, regroupAll, argumentsText, text_regroup first, others, argumentsText]

end

end Text

end Expr
end Unnest.Script
