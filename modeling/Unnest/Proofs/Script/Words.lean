import Unnest.Proofs.Script.Rows

/-! The words of a tree: the names, labels, operators and numbers that are printed as they are. A
text that is printed has no line break unless one of its words has. -/

namespace Unnest.Script
open Text

mutual

/-- The names, operators and numbers that are printed with an expression. -/
def Expr.words : Expr → List String
  | .identifier name => [name]
  | .number literal => [literal]
  | .unary operator operand => operator :: operand.words
  | .binary left operator right => left.words ++ operator :: right.words
  | .assign target value => target.words ++ value.words
  | .call callee arguments => callee.words ++ argumentsWords arguments
  | .member object property => object.words ++ [property]
  | .function name params _ => name.toList ++ params
  | _ => []

def argumentsWords : List Expr → List String
  | [] => []
  | first :: rest => first.words ++ argumentsWords rest

end

/-- The words of an expression that may be missing. -/
def optionalWords (expression : Option Expr) : List String :=
  (expression.map Expr.words).getD []

mutual

/-- The names, labels, operators and numbers that are listed with a statement. -/
def Stmt.words : Stmt → List String
  | .block body => words body
  | .branch test thenBody none => test.words ++ words thenBody
  | .branch test thenBody (some elseBody) => test.words ++ words thenBody ++ words elseBody
  | .whileLoop condition body => condition.words ++ words body
  | .doLoop body condition => words body ++ condition.words
  | .forLoop init condition iterator body =>
    init.words ++ optionalWords condition ++ optionalWords iterator ++ words body
  | .labeled label body => label :: body.words
  | .breakJump label => label.toList
  | .continueJump label => label.toList
  | .goto target => [target]
  | .ret value => optionalWords value
  | .throw value => value.words
  | .expression value => value.words
  | .empty => []
  | .switch discriminant cases => discriminant.words ++ caseWords cases
  | .function name params body => name :: params ++ words body

def words : List Stmt → List String
  | [] => []
  | first :: rest => first.words ++ words rest

def caseWords : List Case → List String
  | [] => []
  | .clause test body :: rest => optionalWords test ++ words body ++ caseWords rest

end

section Words

theorem isLine_intercalate {separator : String} {parts : List String} (single : IsLine separator)
    (each : ∀ part ∈ parts, IsLine part) : IsLine (separator.intercalate parts) := by
  induction parts with
  | nil => exact List.not_mem_nil
  | cons first rest ih =>
    rw [List.forall_mem_cons] at each
    cases rest with
    | nil => simpa using each.1
    | cons second rest =>
      rw [String.intercalate_cons_cons, isLine_append, isLine_append]
      exact ⟨⟨each.1, single⟩, ih each.2⟩

theorem break_not_mem_hexDigits (n : Nat) : '\n' ∉ hexDigits n := by
  induction n using Nat.strongRecOn with
  | ind n ih =>
    rw [hexDigits, Nat.toDigits_eq_if (by decide)]
    split
    next small => simp
    next large =>
      have lower := ih (n / 16) (by omega)
      rw [hexDigits] at lower
      simp [lower]

/-- No line break is left in quoted text. -/
theorem isLine_quoted (text : String) : IsLine (quoted text) := by
  have each (c : Char) : '\n' ∉ escapeChar c := by
    unfold escapeChar
    split_ifs with quote backslash newline carriage tab null hidden
    · decide
    · decide
    · decide
    · decide
    · decide
    · decide
    · simp [break_not_mem_hexDigits]
    · exact fun member => newline (List.mem_singleton.1 member).symm
  simp [IsLine, quoted, each]

theorem isLine_operandText {text : String} (single : IsLine text) (compound : Bool) :
    IsLine (Expr.operandText compound text) := by
  cases compound with
  | false => exact single
  | true => exact isLine_append.2 ⟨isLine_append.2 ⟨by decide, single⟩, by decide⟩

mutual

theorem Expr.isLine_text (expression : Expr) (single : ∀ word ∈ expression.words, IsLine word) :
    IsLine expression.text := by
  match expression with
  | .identifier name => exact List.forall_mem_singleton.1 single
  | .number literal => exact List.forall_mem_singleton.1 single
  | .string value => exact isLine_quoted value
  | .boolean true | .boolean false | .null => decide
  | .unary operator operand =>
    rw [Expr.words, List.forall_mem_cons] at single
    exact isLine_append.2 ⟨single.1, isLine_operandText (operand.isLine_text single.2) _⟩
  | .binary left operator right =>
    rw [Expr.words, List.forall_mem_append, List.forall_mem_cons] at single
    obtain ⟨inLeft, named, inRight⟩ := single
    simp only [Expr.text, isLine_append]
    exact ⟨⟨⟨⟨isLine_operandText (left.isLine_text inLeft) _, by decide⟩, named⟩, by decide⟩,
      isLine_operandText (right.isLine_text inRight) _⟩
  | .assign target value =>
    rw [Expr.words, List.forall_mem_append] at single
    simp only [Expr.text, isLine_append]
    exact ⟨⟨target.isLine_text single.1, by decide⟩, value.isLine_text single.2⟩
  | .call callee arguments =>
    rw [Expr.words, List.forall_mem_append] at single
    simp only [Expr.text, isLine_append]
    exact ⟨⟨⟨isLine_operandText (callee.isLine_text single.1) _, by decide⟩,
      isLine_argumentsText arguments single.2⟩, by decide⟩
  | .member object property =>
    rw [Expr.words, List.forall_mem_append, List.forall_mem_singleton] at single
    simp only [Expr.text, isLine_append]
    exact ⟨⟨isLine_operandText (object.isLine_text single.1) _, by decide⟩, single.2⟩
  | .function name params _ =>
    rw [Expr.words, List.forall_mem_append] at single
    have named : IsLine (name.getD "") := by
      cases name with
      | none => decide
      | some name => exact List.forall_mem_singleton.1 single.1
    simp only [Expr.text, isLine_append]
    exact ⟨⟨⟨⟨by decide, named⟩, by decide⟩, isLine_intercalate (by decide) single.2⟩, by decide⟩

theorem isLine_argumentsText (arguments : List Expr)
    (single : ∀ word ∈ argumentsWords arguments, IsLine word) :
    IsLine (Expr.argumentsText arguments) := by
  match arguments with
  | [] => exact List.not_mem_nil
  | [last] =>
    rw [argumentsWords, List.forall_mem_append] at single
    exact last.isLine_text single.1
  | first :: second :: rest =>
    rw [argumentsWords, List.forall_mem_append] at single
    rw [Expr.argumentsText, isLine_append, isLine_append]
    exact ⟨⟨first.isLine_text single.1, by decide⟩, isLine_argumentsText (second :: rest) single.2⟩

end

theorem isLine_optionalText {expression : Option Expr}
    (single : ∀ word ∈ optionalWords expression, IsLine word) : IsLine (optionalText expression) := by
  cases expression with
  | none => exact List.not_mem_nil
  | some expression => exact expression.isLine_text single

theorem isLine_jumpText {keyword : String} {label : Option String} (plain : IsLine keyword)
    (single : ∀ word ∈ label.toList, IsLine word) : IsLine (jumpText keyword label) := by
  cases label with
  | none => exact isLine_append.2 ⟨plain, by decide⟩
  | some label =>
    simp only [jumpText, isLine_append]
    exact ⟨⟨⟨plain, by decide⟩, List.forall_mem_singleton.1 single⟩, by decide⟩

theorem isLine_caseText {test : Option Expr}
    (single : ∀ word ∈ optionalWords test, IsLine word) : IsLine (caseText test) := by
  cases test with
  | none => decide
  | some test =>
    simp only [caseText, isLine_append]
    exact ⟨⟨by decide, test.isLine_text single⟩, by decide⟩

end Words

end Unnest.Script
