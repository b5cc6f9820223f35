import Unnest.Script.ExprText
import Unnest.Script.Page

/-! Listings of statements and labeled blocks, one construct a line and four spaces a
level. The initializer of a `for` loop is listed on a page of its own and then set into
the loop's header without its semicolons. -/

namespace Unnest.Script

/-- The text without the semicolons at its end. -/
def withoutSemicolons (text : String) : String :=
  String.ofList (text.toList.reverse.dropWhile (· == ';')).reverse

/-- A jump's keyword, followed by the label if there is one. -/
def jumpText (keyword : String) : Option String → String
  | some label => keyword ++ " " ++ label ++ ";"
  | none => keyword ++ ";"

/-- The line that opens a switch case. -/
def caseText : Option Expr → String
  | some test => "case " ++ test.text ++ ":"
  | none => "default:"

mutual

def Stmt.print : Stmt → Page → Page
  | .block body, page => ((page.line "\x7b").nested (printAll body)).line "\x7d"
  | .branch test thenBody none, page =>
    ((page.line ("if (" ++ test.text ++ ") \x7b")).nested (printAll thenBody)).line "\x7d"
  | .branch test thenBody (some elseBody), page =>
    ((((page.line ("if (" ++ test.text ++ ") \x7b")).nested (printAll thenBody)).line
      "\x7d else \x7b").nested (printAll elseBody)).line "\x7d"
  | .whileLoop condition body, page =>
    ((page.line ("while (" ++ condition.text ++ ") \x7b")).nested (printAll body)).line "\x7d"
  | .doLoop body condition, page =>
    ((page.line "do \x7b").nested (printAll body)).line ("\x7d while (" ++ condition.text ++ ");")
  | .forLoop init condition iterator body, page =>
    ((page.line ("for (" ++ withoutSemicolons (init.print .blank).withoutLastBreak ++ "; " ++
      optionalText condition ++ "; " ++ optionalText iterator ++ ") \x7b")).nested
        (printAll body)).line "\x7d"
  | .labeled label body, page => body.print (page.line (label ++ ":"))
  | .breakJump label, page => page.line (jumpText "break" label)
  | .continueJump label, page => page.line (jumpText "continue" label)
  | .goto target, page => page.line ("goto " ++ target ++ ";")
  | .ret (some value), page => page.line ("return " ++ value.text ++ ";")
  | .ret none, page => page.line "return;"
  | .throw value, page => page.line ("throw " ++ value.text ++ ";")
  | .expression value, page => page.line (value.text ++ ";")
  | .empty, page => page.line ";"
  | .switch discriminant cases, page =>
    (printCases cases (page.line ("switch (" ++ discriminant.text ++ ") \x7b"))).line "\x7d"
  | .function name params body, page =>
    ((page.line ("function " ++ name ++ "(" ++ ", ".intercalate params ++ ") \x7b")).nested
      (printAll body)).line "\x7d"

def printAll : List Stmt → Page → Page
  | [], page => page
  | first :: rest, page => printAll rest (first.print page)

def printCases : List Case → Page → Page
  | [], page => page
  | .clause test body :: rest, page =>
    printCases rest ((page.line (caseText test)).nested (printAll body))

end

/-- The listing of a statement on its own. -/
def Stmt.text (statement : Stmt) : String := (statement.print .blank).withoutLastBreak

/-- A block's name as a header, then its statements one level deeper. -/
def LabeledBlock.print (block : LabeledBlock) (page : Page) : Page :=
  (page.line (block.name ++ ":")).nested (printAll block.statements)

/-- Blocks in order, with an empty line between two of them. -/
def printBlocks : List LabeledBlock → Page → Page
  | [], page => page
  | [last], page => last.print page
  | first :: second :: rest, page => printBlocks (second :: rest) (first.print page).skipLine

/-- The listing of a whole block list. -/
def listing (blocks : List LabeledBlock) : String := (printBlocks blocks .blank).text

end Unnest.Script
