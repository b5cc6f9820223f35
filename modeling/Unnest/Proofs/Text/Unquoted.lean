import Mathlib
import Unnest.Text.Quoted

/-! Quoted text is read back as the text that was quoted, whatever follows it. So two quoted texts
are the same only if the texts are, and one ends where its own closing quote stands. -/

namespace Unnest.Text

section Hexadecimal

/-- What a lower-case hexadecimal digit stands for. -/
def digitValue (c : Char) : Nat := if c.isDigit then c.toNat - '0'.toNat else c.toNat - 'a'.toNat + 10

theorem digitChar_spec : ∀ n < 16, digitValue n.digitChar = n ∧ n.digitChar ≠ '\x7d' := by decide

/-- The number that hexadecimal digits stand for, after others that stand for a number already. -/
def hexNumber (init : Nat) (digits : List Char) : Nat :=
  digits.foldl (fun n c => 16 * n + digitValue c) init

theorem hexNumber_hexDigits (n : Nat) :
    hexNumber 0 (hexDigits n) = n ∧ '\x7d' ∉ hexDigits n := by
  induction n using Nat.strongRecOn with
  | ind n ih =>
    rw [hexDigits, Nat.toDigits_eq_if (by decide)]
    split
    next small =>
      have spec := digitChar_spec n small
      simp [hexNumber, spec.1, spec.2.symm]
    next large =>
      obtain ⟨value, closed⟩ := ih (n / 16) (by omega)
      rw [hexDigits] at value closed
      have spec := digitChar_spec (n % 16) (Nat.mod_lt _ (by decide))
      have whole : 16 * (n / 16) + n % 16 = n := Nat.div_add_mod n 16
      rw [hexNumber] at value
      simp [hexNumber, List.foldl_append, value, spec.1, spec.2.symm, whole, closed]

end Hexadecimal

/-- The character that an escape other than a number stands for. -/
def escaped (c : Char) : Char :=
  if c = 'n' then '\n' else if c = 'r' then '\r' else if c = 't' then '\t'
  else if c = '0' then '\x00' else c

/-- Read text up to its closing quote, in the middle of the digits of an escape or not. -/
def unquote : (digits : Option Nat) → List Char → Option (List Char × List Char)
  | _, [] => none
  | some n, '\x7d' :: rest => (unquote none rest).map fun (text, rest) => (Char.ofNat n :: text, rest)
  | some n, c :: rest => unquote (some (16 * n + digitValue c)) rest
  | none, '"' :: rest => some ([], rest)
  | none, '\\' :: 'u' :: '\x7b' :: rest => unquote (some 0) rest
  | none, '\\' :: c :: rest => (unquote none rest).map fun (text, rest) => (escaped c :: text, rest)
  | none, c :: rest => (unquote none rest).map fun (text, rest) => (c :: text, rest)

theorem unquote_digits {digits : List Char} (closed : '\x7d' ∉ digits) (n : Nat) (rest : List Char) :
    unquote (some n) (digits ++ '\x7d' :: rest) =
      (unquote none rest).map fun (text, rest) => (Char.ofNat (hexNumber n digits) :: text, rest) := by
  induction digits generalizing n with
  | nil => rfl
  | cons c digits ih =>
    rw [List.mem_cons, not_or] at closed
    rw [List.cons_append, unquote, ih closed.2]
    · rfl
    · exact fun same => closed.1 same.symm

/-- A character is read back from its written form. -/
theorem unquote_escapeChar (c : Char) (rest : List Char) :
    unquote none (escapeChar c ++ rest) =
      (unquote none rest).map fun (text, rest) => (c :: text, rest) := by
  unfold escapeChar
  split_ifs with quote backslash newline carriage tab null hidden
  · subst quote; rfl
  · subst backslash; rfl
  · subst newline; rfl
  · subst carriage; rfl
  · subst tab; rfl
  · subst null; rfl
  · obtain ⟨value, closed⟩ := hexNumber_hexDigits c.toNat
    have digits := unquote_digits closed 0 rest
    rw [value, Char.ofNat_toNat] at digits
    simpa [unquote] using digits
  · rw [List.singleton_append, unquote]
    · exact quote
    · exact fun _ same _ => backslash same
    · exact fun _ _ same _ => backslash same

theorem unquote_quoted (text : String) (rest : List Char) :
    unquote none (text.toList.flatMap escapeChar ++ '"' :: rest) = some (text.toList, rest) := by
  induction text.toList with
  | nil => rfl
  | cons c others ih =>
    rw [List.flatMap_cons, List.append_assoc, unquote_escapeChar, ih]
    rfl

end Unnest.Text
