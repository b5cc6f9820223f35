import Mathlib
import Unnest.Script.Listing

/-! Rows of a listing, each with its depth below the level of the listing, and the lines that they
take on a page. At a deeper level the lines are the same, with more spaces before each of them,
exactly when no row breaks into several lines. -/

namespace Unnest.Script

/-- The lines of a text, each of which is ended by a line break. -/
def linesOf (text : String) : List (List Char) := (text.toList.splitOn '\n').dropLast

/-- There is no line break in the text. -/
def IsLine (text : String) : Prop := '\n' ∉ text.toList

instance (text : String) : Decidable (IsLine text) :=
  inferInstanceAs (Decidable ('\n' ∉ text.toList))

/-- The spaces before a line of this level. -/
def spaces (level : Nat) : List Char := List.replicate (4 * level) ' '

/-- One call for a line: how deep it stands in the listing, and its text. -/
structure Row where
  depth : Nat
  text : String

namespace Row

def deeper (row : Row) : Row := ⟨row.depth + 1, row.text⟩

/-- What a row adds to a page of this level. -/
def shown (level : Nat) (row : Row) : String := Page.indent (level + row.depth) ++ row.text ++ "\n"

/-- The lines that a row takes in a listing of this level. Only the first of them is indented. -/
def lines (level : Nat) (row : Row) : List (List Char) :=
  (row.text.toList.splitOn '\n').modifyHead (spaces (level + row.depth) ++ ·)

end Row

section Lines

variable {text : String} {level : Nat} {row : Row} {rows : List Row}

theorem isLine_append {front back : String} : IsLine (front ++ back) ↔ IsLine front ∧ IsLine back := by
  simp [IsLine, not_or]

theorem spaces_add (level depth : Nat) : spaces (level + depth) = spaces level ++ spaces depth := by
  rw [spaces, Nat.mul_add, List.replicate_add]
  rfl

theorem splitOn_append_break (front back : List Char) :
    (front ++ '\n' :: back).splitOn '\n' = front.splitOn '\n' ++ back.splitOn '\n' := by
  simp only [List.splitOn_eq_splitOnP]
  exact List.splitOnP_append_cons front back rfl

theorem splitOn_spaces (count : Nat) (rest : List Char) :
    (List.replicate count ' ' ++ rest).splitOn '\n' =
      (rest.splitOn '\n').modifyHead (List.replicate count ' ' ++ ·) := by
  simp only [List.splitOn_eq_splitOnP]
  induction count with
  | zero => exact (congrFun List.modifyHead_id _).symm
  | succ count ih =>
    rw [List.replicate_succ, List.cons_append, List.splitOnP_cons_eq_if_modifyHead, ih,
      List.modifyHead_modifyHead]
    rfl

theorem linesOf_append_break (front back : String) :
    linesOf (front ++ "\n" ++ back) = front.toList.splitOn '\n' ++ linesOf back := by
  have whole : (front ++ "\n" ++ back).toList = front.toList ++ '\n' :: back.toList := by simp
  rw [linesOf, whole, splitOn_append_break,
    List.dropLast_append_of_ne_nil (List.splitOn_ne_nil _ _)]
  rfl

theorem Row.linesOf_shown (back : String) :
    linesOf (row.shown level ++ back) = row.lines level ++ linesOf back := by
  rw [Row.shown, linesOf_append_break, String.toList_append, Page.indent, String.toList_ofList,
    splitOn_spaces]
  rfl

theorem linesOf_shown (level : Nat) (rows : List Row) :
    linesOf (String.join (rows.map (Row.shown level))) = rows.flatMap (Row.lines level) := by
  induction rows with
  | nil => rfl
  | cons row rows ih =>
    rw [List.map_cons, String.join_cons, Row.linesOf_shown, ih]
    rfl

theorem Row.lines_of_isLine (single : IsLine row.text) (level : Nat) :
    row.lines level = [spaces (level + row.depth) ++ row.text.toList] := by
  rw [Row.lines, List.splitOn_eq_singleton single]
  rfl

theorem Row.length_lines (row : Row) (level : Nat) :
    (row.lines level).length = (row.text.toList.splitOn '\n').length :=
  List.length_modifyHead

/-- A row that breaks into lines has a line that is not indented. -/
theorem Row.isLine_of_lines (indented : row.lines 1 = (row.lines 0).map (spaces 1 ++ ·)) :
    IsLine row.text := by
  intro broken
  obtain ⟨front, back, split⟩ := List.append_of_mem broken
  rw [Row.lines, Row.lines, split, splitOn_append_break] at indented
  obtain ⟨first, others, opens⟩ := List.exists_cons_of_ne_nil (List.splitOn_ne_nil '\n' front)
  obtain ⟨line, rest, ends⟩ := List.exists_cons_of_ne_nil (List.splitOn_ne_nil '\n' back)
  rw [opens, ends, List.cons_append, List.modifyHead_cons, List.modifyHead_cons, List.map_cons,
    List.map_append] at indented
  -- The line behind the first break is the same at both levels, and has no spaces before it.
  have behind := (List.append_inj (List.cons.inj indented).2 (by simp)).2
  have same := congrArg List.length (List.cons.inj behind).1
  rw [List.length_append] at same
  exact absurd same (by simp [spaces])

/-- Parts of the same lengths that make the same list are the same. -/
theorem flatMap_inj {α β : Type} {f g : α → List β} {list : List α}
    (lengths : ∀ item ∈ list, (f item).length = (g item).length)
    (same : list.flatMap f = list.flatMap g) : ∀ item ∈ list, f item = g item := by
  induction list with
  | nil => exact List.forall_mem_nil _
  | cons first rest ih =>
    rw [List.forall_mem_cons] at lengths ⊢
    obtain ⟨here, behind⟩ := List.append_inj same lengths.1
    exact ⟨here, ih lengths.2 behind⟩

theorem rows_indented (single : ∀ row ∈ rows, IsLine row.text) (level : Nat) :
    rows.flatMap (Row.lines level) = (rows.flatMap (Row.lines 0)).map (spaces level ++ ·) := by
  rw [List.map_flatMap]
  apply List.flatMap_congr
  intro row member
  rw [Row.lines_of_isLine (single row member), Row.lines_of_isLine (single row member), spaces_add]
  simp

/-- A listing is indented line by line exactly when no row breaks. -/
theorem rows_indented_iff :
    (∀ level, rows.flatMap (Row.lines level) =
        (rows.flatMap (Row.lines 0)).map (spaces level ++ ·)) ↔
      ∀ row ∈ rows, IsLine row.text := by
  refine ⟨fun indented row member => ?_, rows_indented⟩
  have once := indented 1
  rw [List.map_flatMap] at once
  refine Row.isLine_of_lines (flatMap_inj (fun row _ => ?_) once row member)
  rw [List.length_map, Row.length_lines, Row.length_lines]

end Lines

section Lists

/-- The write puts these rows on any page, and comes back to the level of the page. -/
def Lists (write : Page → Page) (rows : List Row) : Prop :=
  ∀ page, write page =
    ⟨page.text ++ String.join (rows.map (Row.shown page.level)), page.level⟩

variable {write first second : Page → Page} {rows more : List Row} {text : String}

theorem Lists.nothing : Lists (fun page => page) [] := by
  intro page
  simp

theorem Lists.line (text : String) : Lists (Page.line text) [⟨0, text⟩] := by
  intro page
  simp [Page.line, Row.shown, String.append_assoc]

theorem Lists.andThen (before : Lists first rows) (behind : Lists second more) :
    Lists (fun page => second (first page)) (rows ++ more) := by
  intro page
  dsimp only
  rw [before, behind, List.map_append, String.join_append, String.append_assoc]

theorem Lists.nested (inner : Lists write rows) : Lists (Page.nested write) (rows.map Row.deeper) := by
  intro page
  rw [Page.nested, inner, List.map_map]
  simp only [Nat.add_sub_cancel]
  congr 4
  funext row
  simp [Row.shown, Row.deeper, Nat.add_assoc, Nat.add_comm 1]

end Lists

end Unnest.Script
