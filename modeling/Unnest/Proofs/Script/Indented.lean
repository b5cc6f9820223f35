import Unnest.Proofs.Script.Words

/-! The listing of a statement at a deeper level is the same listing with four spaces a level before
each line, as long as every `for` loop in it has an initializer that is listed on one line. The
initializer is listed on a page of its own, at the outermost level, so the breaks of a longer one
stand in the header of the loop and what follows them is not indented. -/

namespace Unnest.Script

mutual

/-- The initializers of the `for` loops that are listed with a statement. -/
def Stmt.inits : Stmt → List Stmt
  | .block body => inits body
  | .branch _ thenBody none => inits thenBody
  | .branch _ thenBody (some elseBody) => inits thenBody ++ inits elseBody
  | .whileLoop _ body => inits body
  | .doLoop body _ => inits body
  | .forLoop init _ _ body => init :: inits body
  | .labeled _ body => body.inits
  | .switch _ cases => caseInits cases
  | .function _ _ body => inits body
  | _ => []

def inits : List Stmt → List Stmt
  | [] => []
  | first :: rest => first.inits ++ inits rest

def caseInits : List Case → List Stmt
  | [] => []
  | .clause _ body :: rest => inits body ++ caseInits rest

end

/-- A statement of this kind is listed on one line, any other on several. -/
def Stmt.isOneLine : Stmt → Bool
  | .breakJump _ | .continueJump _ | .goto _ | .ret _ | .throw _ | .expression _ | .empty => true
  | _ => false

section Headers

variable {text : String}

/-- Taking semicolons off the end of a text takes no line break away. -/
theorem isLine_withoutSemicolons : IsLine (withoutSemicolons text) ↔ IsLine text := by
  have kept : '\n' ∈ text.toList.reverse.dropWhile (· == ';') ↔ '\n' ∈ text.toList.reverse := by
    refine ⟨fun member => (List.dropWhile_sublist _).subset member, fun member => ?_⟩
    have split := List.takeWhile_append_dropWhile (p := (· == ';')) (l := text.toList.reverse)
    rw [← split, List.mem_append] at member
    exact member.resolve_left fun taken => absurd (List.mem_takeWhile_imp taken) (by decide)
  simpa [IsLine, withoutSemicolons] using not_congr kept

theorem withoutLastBreak_line (text : String) :
    (Page.blank.line text).withoutLastBreak = text := by
  simp [Page.withoutLastBreak, Page.line, Page.blank, Page.indent]

/-- Of several rows, the breaks before the last one stay. -/
theorem Lists.breaks {write : Page → Page} {rows : List Row} (lists : Lists write rows)
    (several : 2 ≤ rows.length) : ¬ IsLine (write .blank).withoutLastBreak := by
  obtain ⟨first, second, rest, rfl⟩ : ∃ first second rest, rows = first :: second :: rest := by
    match rows with
    | first :: second :: rest => exact ⟨first, second, rest, rfl⟩
  have front : '\n' ∈ (first.shown Page.blank.level).toList := by simp [Row.shown]
  have back : (second.shown Page.blank.level ++
      String.join (rest.map (Row.shown Page.blank.level))).toList ≠ [] := by simp [Row.shown]
  rw [lists, IsLine, not_not, Page.withoutLastBreak, String.toList_ofList, List.map_cons,
    List.map_cons, String.join_cons, String.join_cons, String.toList_append, String.toList_append,
    ← List.append_assoc, List.dropLast_append_of_ne_nil back]
  exact List.mem_append_left _ (List.mem_append_right _ front)

/-- A statement that is listed on one line writes one row. -/
theorem Stmt.print_of_isOneLine {statement : Stmt} (short : statement.isOneLine = true) :
    ∃ text, statement.print = Page.line text ∧
      ((∀ word ∈ statement.words, IsLine word) → IsLine text) := by
  cases statement with
  | breakJump label | continueJump label => exact ⟨_, rfl, isLine_jumpText (by decide)⟩
  | goto target =>
    refine ⟨_, rfl, fun single => ?_⟩
    simp only [isLine_append]
    exact ⟨⟨by decide, List.forall_mem_singleton.1 single⟩, by decide⟩
  | ret value =>
    cases value with
    | none => exact ⟨_, rfl, fun _ => by decide⟩
    | some value =>
      refine ⟨_, rfl, fun single => ?_⟩
      simp only [isLine_append]
      exact ⟨⟨by decide, value.isLine_text single⟩, by decide⟩
  | throw value =>
    refine ⟨_, rfl, fun single => ?_⟩
    simp only [isLine_append]
    exact ⟨⟨by decide, value.isLine_text single⟩, by decide⟩
  | expression value =>
    exact ⟨_, rfl, fun single => isLine_append.2 ⟨value.isLine_text single, by decide⟩⟩
  | empty => exact ⟨_, rfl, fun _ => by decide⟩
  | _ => cases short

end Headers

/-- The write puts at least so many rows on a page. If there are no line breaks in the words, no row
breaks exactly when the initializers are as they should be. -/
def Writes (words : List String) (inits : List Stmt) (least : Nat) (write : Page → Page) : Prop :=
  ∃ rows, Lists write rows ∧ least ≤ rows.length ∧
    ((∀ word ∈ words, IsLine word) →
      ((∀ row ∈ rows, IsLine row.text) ↔ ∀ init ∈ inits, init.isOneLine = true))

section Writes

variable {write first second : Page → Page} {text : String} {front back : List String}
  {these those : List Stmt} {least count : Nat}

theorem Writes.nothing : Writes [] [] 0 fun page => page :=
  ⟨[], .nothing, Nat.le_refl _, fun _ => ⟨fun _ => List.forall_mem_nil _, fun _ => List.forall_mem_nil _⟩⟩

theorem Writes.line (single : (∀ word ∈ front, IsLine word) →
      (IsLine text ↔ ∀ init ∈ these, init.isOneLine = true)) :
    Writes front these 1 (Page.line text) :=
  ⟨[⟨0, text⟩], .line text, Nat.le_refl _, fun all =>
    List.forall_mem_singleton.trans (single all)⟩

theorem Writes.andThen (before : Writes front these least first)
    (behind : Writes back those count second) :
    Writes (front ++ back) (these ++ those) (least + count) fun page => second (first page) := by
  obtain ⟨rows, lists, length, single⟩ := before
  obtain ⟨rest, listsRest, lengthRest, singleRest⟩ := behind
  refine ⟨rows ++ rest, lists.andThen listsRest, ?_, fun all => ?_⟩
  · rw [List.length_append]
    exact Nat.add_le_add length lengthRest
  · rw [List.forall_mem_append] at all
    rw [List.forall_mem_append, List.forall_mem_append, single all.1, singleRest all.2]

theorem Writes.nested (inner : Writes front these least write) :
    Writes front these least (Page.nested write) := by
  obtain ⟨rows, lists, length, single⟩ := inner
  refine ⟨_, lists.nested, by rwa [List.length_map], fun all => ?_⟩
  rw [List.forall_mem_map]
  exact single all

theorem Writes.atLeast (writes : Writes front these least write) (le : count ≤ least) :
    Writes front these count write := by
  obtain ⟨rows, lists, length, single⟩ := writes
  exact ⟨rows, lists, Nat.le_trans le length, single⟩

/-- One more line, which has no initializer in it. -/
theorem Writes.andLine (before : Writes front these least first)
    (single : (∀ word ∈ back, IsLine word) → IsLine text) :
    Writes (front ++ back) these (least + 1) fun page => (first page).line text := by
  have line : Writes back [] 1 (Page.line text) :=
    .line fun all => ⟨fun _ => List.forall_mem_nil _, fun _ => single all⟩
  have both := before.andThen line
  rwa [List.append_nil] at both

/-- The closing line of a construct. -/
theorem Writes.andClose (before : Writes front these least first) (text : String)
    (single : IsLine text) :
    Writes front these (least + 1) fun page => (first page).line text := by
  have closing : (∀ word ∈ ([] : List String), IsLine word) → IsLine text := fun _ => single
  have both := before.andLine closing
  rwa [List.append_nil] at both

theorem Writes.ofLine (single : (∀ word ∈ front, IsLine word) → IsLine text) :
    Writes front [] 1 (Page.line text) :=
  .line fun all => ⟨fun _ => List.forall_mem_nil _, fun _ => single all⟩

/-- The initializer in the header of a loop breaks unless it is listed on one line. -/
theorem isLine_init {init : Stmt}
    (written : Writes init.words init.inits (if init.isOneLine then 1 else 2) init.print)
    (single : ∀ word ∈ init.words, IsLine word) :
    IsLine (withoutSemicolons (init.print .blank).withoutLastBreak) ↔ init.isOneLine = true := by
  rw [isLine_withoutSemicolons]
  cases short : init.isOneLine with
  | true =>
    obtain ⟨text, print, plain⟩ := Stmt.print_of_isOneLine short
    rw [print, withoutLastBreak_line]
    exact ⟨fun _ => rfl, fun _ => plain single⟩
  | false =>
    obtain ⟨rows, lists, several, _⟩ := written
    rw [short] at several
    exact ⟨fun line => absurd line (lists.breaks several), nofun⟩

theorem writes_header {init : Stmt} {condition iterator : Option Expr}
    (written : Writes init.words init.inits (if init.isOneLine then 1 else 2) init.print) :
    Writes (init.words ++ optionalWords condition ++ optionalWords iterator) [init] 1
      (Page.line ("for (" ++ withoutSemicolons (init.print .blank).withoutLastBreak ++ "; " ++
        optionalText condition ++ "; " ++ optionalText iterator ++ ") \x7b")) := by
  -- The rows inside the initializer do not count: all of its text is in the one row of the header.
  refine .line fun single => ?_
  rw [List.forall_mem_append, List.forall_mem_append] at single
  obtain ⟨⟨inInit, inCondition⟩, inIterator⟩ := single
  rw [List.forall_mem_singleton, ← isLine_init written inInit]
  simp only [isLine_append]
  have opening : IsLine "for (" := by decide
  have separator : IsLine "; " := by decide
  have closing : IsLine ") \x7b" := by decide
  simp only [opening, separator, closing, isLine_optionalText inCondition,
    isLine_optionalText inIterator, true_and, and_true]

theorem Stmt.writes_of_isOneLine {statement : Stmt} (short : statement.isOneLine = true) :
    Writes statement.words statement.inits 1 statement.print := by
  obtain ⟨text, print, plain⟩ := print_of_isOneLine short
  have none : statement.inits = [] := by cases statement <;> first | rfl | cases short
  rw [print, none]
  exact .ofLine plain

theorem isLine_between {before text behind : String} (opens : IsLine before) (inside : IsLine text)
    (closes : IsLine behind) : IsLine (before ++ text ++ behind) :=
  isLine_append.2 ⟨isLine_append.2 ⟨opens, inside⟩, closes⟩

mutual

theorem Stmt.writes (statement : Stmt) :
    Writes statement.words statement.inits (if statement.isOneLine then 1 else 2)
      statement.print := by
  match statement with
  | .block body =>
    have opening : Writes [] [] 1 (Page.line "\x7b") := .ofLine fun _ => by decide
    exact (opening.andThen (writes_printAll body).nested).andClose "\x7d" (by decide)
  | .branch test thenBody none =>
    have opening : Writes test.words [] 1 (Page.line ("if (" ++ test.text ++ ") \x7b")) :=
      .ofLine fun single => isLine_between (by decide) (test.isLine_text single) (by decide)
    exact (opening.andThen (writes_printAll thenBody).nested).andClose "\x7d" (by decide)
  | .branch test thenBody (some elseBody) =>
    have opening : Writes test.words [] 1 (Page.line ("if (" ++ test.text ++ ") \x7b")) :=
      .ofLine fun single => isLine_between (by decide) (test.isLine_text single) (by decide)
    have between := (opening.andThen (writes_printAll thenBody).nested).andClose
      "\x7d else \x7b" (by decide)
    exact ((between.andThen (writes_printAll elseBody).nested).andClose "\x7d" (by decide)).atLeast
      (Nat.le_succ 2)
  | .whileLoop condition body =>
    have opening : Writes condition.words [] 1
        (Page.line ("while (" ++ condition.text ++ ") \x7b")) :=
      .ofLine fun single => isLine_between (by decide) (condition.isLine_text single) (by decide)
    exact (opening.andThen (writes_printAll body).nested).andClose "\x7d" (by decide)
  | .doLoop body condition =>
    have opening : Writes [] [] 1 (Page.line "do \x7b") := .ofLine fun _ => by decide
    exact (opening.andThen (writes_printAll body).nested).andLine fun single =>
      isLine_between (by decide) (condition.isLine_text single) (by decide)
  | .forLoop init condition iterator body =>
    exact ((writes_header init.writes).andThen (writes_printAll body).nested).andClose "\x7d" (by decide)
  | .labeled label body =>
    have opening : Writes [label] [] 1 (Page.line (label ++ ":")) := .ofLine fun single =>
      isLine_append.2 ⟨List.forall_mem_singleton.1 single, by decide⟩
    refine (opening.andThen body.writes).atLeast ?_
    show 2 ≤ _
    split <;> omega
  | .switch discriminant cases =>
    have opening : Writes discriminant.words [] 1
        (Page.line ("switch (" ++ discriminant.text ++ ") \x7b")) :=
      .ofLine fun single => isLine_between (by decide) (discriminant.isLine_text single) (by decide)
    exact (opening.andThen (writes_printCases cases)).andClose "\x7d" (by decide)
  | .function name params body =>
    have opening : Writes (name :: params) [] 1 (Page.line
        ("function " ++ name ++ "(" ++ ", ".intercalate params ++ ") \x7b")) := by
      refine .ofLine fun single => ?_
      rw [List.forall_mem_cons] at single
      simp only [isLine_append]
      exact ⟨⟨⟨⟨by decide, single.1⟩, by decide⟩, isLine_intercalate (by decide) single.2⟩, by decide⟩
    exact (opening.andThen (writes_printAll body).nested).andClose "\x7d" (by decide)
  | .breakJump _ | .continueJump _ | .goto _ | .ret _ | .throw _ | .expression _ | .empty =>
    exact Stmt.writes_of_isOneLine rfl

theorem writes_printAll (body : List Stmt) : Writes (words body) (inits body) 0 (printAll body) := by
  match body with
  | [] => exact .nothing
  | first :: rest => exact (first.writes.andThen (writes_printAll rest)).atLeast (Nat.zero_le _)

theorem writes_printCases (cases : List Case) :
    Writes (caseWords cases) (caseInits cases) 0 (printCases cases) := by
  match cases with
  | [] => exact .nothing
  | .clause test body :: rest =>
    have opening : Writes (optionalWords test) [] 1 (Page.line (caseText test)) :=
      .ofLine isLine_caseText
    exact ((opening.andThen (writes_printAll body).nested).andThen (writes_printCases rest)).atLeast
      (Nat.zero_le _)

end

end Writes

section Listing

variable {write : Page → Page} {rows : List Row}

theorem Lists.linesOf (lists : Lists write rows) (level : Nat) :
    linesOf (write ⟨"", level⟩).text = rows.flatMap (Row.lines level) := by
  rw [lists, String.empty_append]
  exact linesOf_shown level rows

/-- The lines of a block's body in a list of blocks. -/
def bodyLines (block : LabeledBlock) : List (List Char) :=
  linesOf (printAll block.statements ⟨"", 1⟩).text

theorem Row.lines_deeper (row : Row) : row.deeper.lines 0 = row.lines 1 := by
  rw [Row.lines, Row.lines, deeper, Nat.zero_add, Nat.add_comm]

/-- The rows of a list of blocks, when those of the bodies are given. -/
def blockRows (rowsOf : LabeledBlock → List Row) (blocks : List LabeledBlock) : List Row :=
  [⟨0, ""⟩].intercalate
    (blocks.map fun block => ⟨0, block.name ++ ":"⟩ :: (rowsOf block).map Row.deeper)

theorem Lists.block {block : LabeledBlock} (lists : Lists (printAll block.statements) rows) :
    Lists block.print (⟨0, block.name ++ ":"⟩ :: rows.map Row.deeper) :=
  (Lists.line _).andThen lists.nested

theorem blockRows_cons_cons (rowsOf : LabeledBlock → List Row) (first second : LabeledBlock)
    (rest : List LabeledBlock) : blockRows rowsOf (first :: second :: rest) =
      blockRows rowsOf [first] ++ ⟨0, ""⟩ :: blockRows rowsOf (second :: rest) := by
  simp [blockRows]

theorem printBlocks_eq {rowsOf : LabeledBlock → List Row}
    (lists : ∀ block, Lists (printAll block.statements) (rowsOf block))
    (blocks : List LabeledBlock) (text : String) :
    printBlocks blocks ⟨text, 0⟩ =
      ⟨text ++ String.join ((blockRows rowsOf blocks).map (Row.shown 0)), 0⟩ := by
  induction blocks generalizing text with
  | nil => simp [printBlocks, blockRows]
  | cons first rest ih =>
    have here := (lists first).block ⟨text, 0⟩
    have single : blockRows rowsOf [first] =
        ⟨0, first.name ++ ":"⟩ :: (rowsOf first).map Row.deeper := by simp [blockRows]
    rw [← single] at here
    cases rest with
    | nil => exact here
    | cons second rest =>
      have gap : Row.shown 0 ⟨0, ""⟩ = "\n" := by decide
      rw [printBlocks, here, Page.skipLine, ih, blockRows_cons_cons, List.map_append, List.map_cons,
        String.join_append, String.join_cons, gap]
      simp only [String.append_assoc]

/-- What goes over appended lists goes over lists with gaps between them. -/
theorem intercalate_of_append {α β : Type} {f : List α → List β} (nil : f [] = [])
    (append : ∀ front back, f (front ++ back) = f front ++ f back) (gap : List α)
    (parts : List (List α)) : f (gap.intercalate parts) = (f gap).intercalate (parts.map f) := by
  induction parts with
  | nil => exact nil
  | cons first rest ih =>
    cases rest with
    | nil => simp
    | cons second rest =>
      simp only [List.intercalate_cons_cons, append, ih, List.map_cons]

/-- With nothing in the gaps, the parts follow one another. -/
theorem intercalate_nothing {α : Type} (parts : List (List α)) :
    ([] : List α).intercalate parts = parts.flatten := by
  induction parts with
  | nil => rfl
  | cons first rest ih =>
    cases rest with
    | nil => simp
    | cons second rest =>
      rw [List.intercalate_cons_cons, List.append_nil, ih]
      rfl

/-- Each block is listed as its header and its body, with an empty line between two blocks. -/
theorem linesOf_listing {blocks : List LabeledBlock}
    (named : ∀ block ∈ blocks, IsLine block.name) :
    linesOf (listing blocks) = [[]].intercalate
      (blocks.map fun block => (block.name ++ ":").toList :: bodyLines block) := by
  choose rowsOf lists _ _ using fun block : LabeledBlock => writes_printAll block.statements
  have whole : linesOf (listing blocks) = (blockRows rowsOf blocks).flatMap (Row.lines 0) := by
    rw [listing, Page.blank, printBlocks_eq lists, String.empty_append]
    exact linesOf_shown 0 _
  rw [whole, blockRows, intercalate_of_append rfl fun _ _ => List.flatMap_append, List.map_map]
  congr 1
  apply List.map_congr_left
  intro block member
  have header : IsLine (Row.mk 0 (block.name ++ ":")).text :=
    isLine_append.2 ⟨named block member, by decide⟩
  have body : ((rowsOf block).map Row.deeper).flatMap (Row.lines 0) = bodyLines block := by
    rw [bodyLines, (lists block).linesOf, List.flatMap_map]
    exact List.flatMap_congr fun row _ => row.lines_deeper
  rw [Function.comp_apply, List.flatMap_cons, body, Row.lines_of_isLine header]
  rfl

/-- The line is not empty and does not begin with a space. -/
def inMargin (line : List Char) : Bool := line.head?.any (· != ' ')

theorem spaces_prefix_of_mem {body : List Stmt} (single : ∀ word ∈ words body, IsLine word)
    (plain : ∀ init ∈ inits body, init.isOneLine = true) {line : List Char}
    (member : line ∈ linesOf (printAll body ⟨"", 1⟩).text) : spaces 1 <+: line := by
  obtain ⟨rows, lists, _, unbroken⟩ := writes_printAll body
  rw [lists.linesOf] at member
  obtain ⟨row, inRows, inRow⟩ := List.mem_flatMap.1 member
  rw [Row.lines_of_isLine ((unbroken single).2 plain row inRows), List.mem_singleton] at inRow
  rw [inRow, spaces_add, List.append_assoc]
  exact List.prefix_append _ _

/-- Of the lines of a block, only the header is in the margin. -/
theorem filter_block {name : String} {body : List (List Char)} (margin : name.toList.head? ≠ some ' ')
    (indented : ∀ line ∈ body, spaces 1 <+: line) :
    ((name ++ ":").toList :: body).filter inMargin = [(name ++ ":").toList] := by
  have header : inMargin (name ++ ":").toList = true := by
    rw [inMargin, String.toList_append]
    cases front : name.toList with
    | nil => rfl
    | cons c rest => simpa [front] using margin
  have inside : body.filter inMargin = [] := by
    rw [List.filter_eq_nil_iff]
    intro line member
    obtain ⟨rest, rfl⟩ := indented line member
    exact Bool.false_ne_true
  rw [List.filter_cons_of_pos header, inside]

end Listing

/-- A listing leaves the level of the page as it is and is added behind what is on the page. When
the words of a statement are free of line breaks, its listing at any level is its listing at the
outermost one with four spaces a level before each line, exactly when each `for` loop in it has an
initializer that is listed on one line. Then also the lines of the bodies of a list of blocks are
indented, and the lines in the margin are the headers of the blocks. -/
theorem print_indented (statement : Stmt) (blocks : List LabeledBlock) :
    (∀ page, (statement.print page).level = page.level ∧
        (statement.print page).text = page.text ++ (statement.print ⟨"", page.level⟩).text) ∧
      ((∀ word ∈ statement.words, IsLine word) →
        ((∀ level, linesOf (statement.print ⟨"", level⟩).text =
            (linesOf (statement.print ⟨"", 0⟩).text).map (spaces level ++ ·)) ↔
          ∀ init ∈ statement.inits, init.isOneLine = true)) ∧
      ((∀ block ∈ blocks, IsLine block.name) →
        (∀ block ∈ blocks, ∀ word ∈ words block.statements, IsLine word) →
        (∀ block ∈ blocks, ∀ init ∈ inits block.statements, init.isOneLine = true) →
          linesOf (listing blocks) = [[]].intercalate
              (blocks.map fun block => (block.name ++ ":").toList :: bodyLines block) ∧
            (∀ block ∈ blocks, ∀ line ∈ bodyLines block, spaces 1 <+: line) ∧
            ((∀ block ∈ blocks, block.name.toList.head? ≠ some ' ') →
              (linesOf (listing blocks)).filter inMargin =
                blocks.map fun block => (block.name ++ ":").toList)) := by
  refine ⟨fun page => ?_, fun single => ?_,
    fun named single plain => ⟨linesOf_listing named, ?_, fun margin => ?_⟩⟩
  · obtain ⟨rows, lists, _⟩ := statement.writes
    rw [lists, lists]
    exact ⟨rfl, by rw [String.empty_append]⟩
  · obtain ⟨rows, lists, _, unbroken⟩ := statement.writes
    simp only [lists.linesOf]
    exact rows_indented_iff.trans (unbroken single)
  · exact fun block member line inBody =>
      spaces_prefix_of_mem (single block member) (plain block member) inBody
  · have gap : [[]].filter inMargin = [] := rfl
    have headers : ∀ block ∈ blocks,
        ((block.name ++ ":").toList :: bodyLines block).filter inMargin =
          [(block.name ++ ":").toList] := fun block member =>
      filter_block (margin block member) fun line inBody =>
        spaces_prefix_of_mem (single block member) (plain block member) inBody
    rw [linesOf_listing named, intercalate_of_append rfl List.filter_append, gap, List.map_map,
      intercalate_nothing, ← List.flatMap_def, List.map_eq_flatMap]
    exact List.flatMap_congr headers

/-- A loop with this initializer, and with a label and a line break in quotes in its body. -/
def loopFrom (init : Stmt) : Stmt :=
  .forLoop init (some (.identifier "more")) none
    [.labeled "again" (.expression (.string "first\nsecond"))]

theorem print_indented_loopFrom :
    (∀ level, linesOf ((loopFrom .empty).print ⟨"", level⟩).text =
        (linesOf ((loopFrom .empty).print ⟨"", 0⟩).text).map (spaces level ++ ·)) ∧
      (¬ ∀ level, linesOf ((loopFrom (.block [])).print ⟨"", level⟩).text =
        (linesOf ((loopFrom (.block [])).print ⟨"", 0⟩).text).map (spaces level ++ ·)) ∧
      (linesOf (listing [⟨"$sm0", [loopFrom .empty]⟩, ⟨"last", [.ret none]⟩])).filter inMargin =
        ["$sm0:".toList, "last:".toList] := by
  obtain ⟨_, indented, margin⟩ :=
    print_indented (loopFrom .empty) [⟨"$sm0", [loopFrom .empty]⟩, ⟨"last", [.ret none]⟩]
  refine ⟨(indented (by decide)).2 (by decide), fun shifted => ?_, ?_⟩
  · have plain := ((print_indented (loopFrom (.block [])) []).2.1 (by decide)).1 shifted
    exact absurd plain (by decide)
  · exact (margin (by decide) (by decide) (by decide)).2.2 (by decide)

end Unnest.Script
