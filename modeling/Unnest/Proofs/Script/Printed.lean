import Unnest.Proofs.Script.Regroup
import Unnest.Proofs.Text.Unquoted

/-! The printed form of an expression can be read back, up to the groupings that it does not show.
The reader has one function for each level of the form: words and parentheses, what is attached to
them, operators, and assignments. It is given a depth and reads the text once that is large enough. -/

namespace Unnest.Script
open Text

section Words

/-- Letters, with everything beyond ASCII among them. -/
def isLetter (c : Char) : Bool := c.isAlpha || c == '_' || c == '$' || 128 ≤ c.toNat

def isNameChar (c : Char) : Bool := isLetter c || c.isDigit

/-- The words that stand for a value. -/
def valueWords : List String := ["true", "false", "null"]

/-- A letter and then letters and digits, but no word that stands for a value. -/
def isName (name : String) : Bool :=
  name.toList.head?.any isLetter && name.toList.all isNameChar && !valueWords.contains name

/-- A digit and then digits. -/
def isDigits (literal : String) : Bool :=
  literal.toList.head?.any Char.isDigit && literal.toList.all Char.isDigit

theorem all_isNameChar_of_isName {name : String} (named : isName name = true) :
    name.toList.all isNameChar = true := by
  rw [isName, Bool.and_eq_true, Bool.and_eq_true] at named
  exact named.1.2

theorem all_isNameChar_of_isDigits {literal : String} (digits : isDigits literal = true) :
    literal.toList.all isNameChar = true := by
  rw [isDigits, Bool.and_eq_true, List.all_eq_true] at digits
  refine List.all_eq_true.2 fun c member => ?_
  rw [isNameChar, digits.2 c member, Bool.or_true]

theorem ne_nil_of_head {word : List Char} {holds : Char → Bool}
    (begins : word.head?.any holds = true) : word ≠ [] := by
  rintro rfl
  cases begins

theorem not_isDigit_of_isLetter {c : Char} (letter : isLetter c = true) : c.isDigit = false := by
  by_contra digit
  simp only [isLetter, Char.isAlpha, Char.isUpper, Char.isLower, Char.isDigit, Bool.or_eq_true,
    Bool.and_eq_true, decide_eq_true_eq, beq_iff_eq, Bool.not_eq_false, ge_iff_le,
    UInt32.le_iff_toNat_le] at letter digit
  have upper : 'A'.val.toNat = 65 ∧ 'Z'.val.toNat = 90 := ⟨rfl, rfl⟩
  have lower : 'a'.val.toNat = 97 ∧ 'z'.val.toNat = 122 := ⟨rfl, rfl⟩
  have digits : '0'.val.toNat = 48 ∧ '9'.val.toNat = 57 := ⟨rfl, rfl⟩
  have code : c.toNat = c.val.toNat := rfl
  rcases letter with ((letter | rfl) | rfl) | beyond
  · omega
  · exact absurd digit.2 (by decide)
  · exact absurd digit.1 (by decide)
  · omega

/-- What a word stands for. -/
def wordExpr (word : List Char) : Expr :=
  if word = "true".toList then .boolean true
  else if word = "false".toList then .boolean false
  else if word = "null".toList then .null
  else if word.head?.any Char.isDigit then .number (String.ofList word)
  else .identifier (String.ofList word)

theorem wordExpr_of_isName {name : String} (named : isName name = true) :
    wordExpr name.toList = .identifier name := by
  rw [isName, Bool.and_eq_true, Bool.and_eq_true, Bool.not_eq_true'] at named
  obtain ⟨⟨begins, _⟩, plain⟩ := named
  have other (word : String) (reserved : word ∈ valueWords) : name.toList ≠ word.toList := by
    intro same
    rw [String.toList_inj.1 same, List.contains_iff_mem.2 reserved] at plain
    cases plain
  have first : name.toList.head?.any Char.isDigit = false := by
    cases head : name.toList.head? with
    | none => rfl
    | some c =>
      rw [head] at begins
      exact not_isDigit_of_isLetter begins
  rw [wordExpr, if_neg (other "true" (by decide)), if_neg (other "false" (by decide)),
    if_neg (other "null" (by decide)), first, if_neg Bool.false_ne_true, String.ofList_toList]

theorem wordExpr_of_isDigits {literal : String} (digits : isDigits literal = true) :
    wordExpr literal.toList = .number literal := by
  rw [isDigits, Bool.and_eq_true] at digits
  have other (word : String) (plain : word.toList.head?.any Char.isDigit = false) :
      literal.toList ≠ word.toList := by
    intro same
    rw [← same, digits.1] at plain
    cases plain
  rw [wordExpr, if_neg (other "true" (by decide)), if_neg (other "false" (by decide)),
    if_neg (other "null" (by decide)), if_pos digits.1, String.ofList_toList]

end Words

def prefixOperators : List String := ["!", "-", "~"]

def isPrefixOperator (c : Char) : Bool := c == '!' || c == '-' || c == '~'

theorem prefixOperators_inv {operator : String} (known : operator ∈ prefixOperators) :
    ∃ c, isPrefixOperator c = true ∧ operator = String.singleton c := by
  simp only [prefixOperators, List.mem_cons, List.not_mem_nil, or_false] at known
  rcases known with rfl | rfl | rfl
  · exact ⟨'!', rfl, rfl⟩
  · exact ⟨'-', rfl, rfl⟩
  · exact ⟨'~', rfl, rfl⟩

def infixOperators : List String := ["<", "+", "-", "*", "==", "&&"]

namespace Expr

/-- An expression of plain names and digits, any strings and the known operators, without functions. -/
inductive Plain : Expr → Prop where
  | identifier {name : String} (named : isName name = true) : Plain (.identifier name)
  | number {literal : String} (digits : isDigits literal = true) : Plain (.number literal)
  | string (value : String) : Plain (.string value)
  | boolean (value : Bool) : Plain (.boolean value)
  | null : Plain .null
  | unary {operator : String} {operand : Expr} (known : operator ∈ prefixOperators)
      (inner : Plain operand) : Plain (.unary operator operand)
  | binary {left right : Expr} {operator : String} (before : Plain left)
      (known : operator ∈ infixOperators) (behind : Plain right) :
      Plain (.binary left operator right)
  | assign {target value : Expr} (before : Plain target) (behind : Plain value) :
      Plain (.assign target value)
  | call {callee : Expr} {arguments : List Expr} (called : Plain callee)
      (each : ∀ argument ∈ arguments, Plain argument) : Plain (.call callee arguments)
  | member {object : Expr} {property : String} (inner : Plain object)
      (named : isName property = true) : Plain (.member object property)

section Plain

variable {build : Expr → Expr}

theorem plain_behindOperators (simple : ∀ {expression : Expr}, expression.Plain →
    (build expression).Plain) (operand : Expr) (plain : operand.Plain) :
    (behindOperators build operand).Plain := by
  cases operand with
  | unary operator inner =>
    cases plain with
    | unary known inside => exact .unary known (plain_behindOperators simple inner inside)
  | _ => exact simple plain

theorem plain_chain (target : Expr) {last : Expr} (before : target.Plain) (behind : last.Plain) :
    (chain target last).Plain := by
  cases target with
  | assign first value =>
    cases before with
    | assign plainFirst plainValue => exact .assign plainFirst (plain_chain value plainValue behind)
  | _ => exact .assign before behind

theorem Plain.plain_regroup {expression : Expr} (plain : expression.Plain) :
    expression.regroup.Plain := by
  have each {arguments : List Expr} (all : ∀ argument ∈ arguments, argument.regroup.Plain) :
      ∀ argument ∈ regroupAll arguments, argument.Plain := by
    induction arguments with
    | nil => nofun
    | cons first rest ih =>
      rw [List.forall_mem_cons] at all
      exact List.forall_mem_cons.2 ⟨all.1, ih all.2⟩
  induction plain with
  | identifier named => exact .identifier named
  | number digits => exact .number digits
  | string value => exact .string value
  | boolean value => exact .boolean value
  | null => exact .null
  | unary known inner ih => exact .unary known ih
  | binary before known behind ihLeft ihRight => exact .binary ihLeft known ihRight
  | assign before behind ihTarget ihValue => exact plain_chain _ ihTarget ihValue
  | call called all ihCallee ihAll =>
    exact plain_behindOperators (fun target => .call target (each ihAll)) _ ihCallee
  | member inner named ih =>
    exact plain_behindOperators (fun target => .member target named) _ ih

end Plain

end Expr

section Reader

/-- An infix operator with the blanks around it. -/
def readInfix : List Char → Option (String × List Char)
  | ' ' :: '<' :: ' ' :: text => some ("<", text)
  | ' ' :: '+' :: ' ' :: text => some ("+", text)
  | ' ' :: '-' :: ' ' :: text => some ("-", text)
  | ' ' :: '*' :: ' ' :: text => some ("*", text)
  | ' ' :: '=' :: '=' :: ' ' :: text => some ("==", text)
  | ' ' :: '&' :: '&' :: ' ' :: text => some ("&&", text)
  | _ => none

mutual

/-- A chain of assignments. -/
def readExpr : (depth : Nat) → List Char → Option (Expr × List Char)
  | 0, _ => none
  | depth + 1, text => do
    match ← readOperation depth text with
    | (target, ' ' :: '=' :: ' ' :: text) =>
      let (value, text) ← readExpr depth text
      return (.assign target value, text)
    | operation => return operation

/-- An operand, or two with an operator between them. -/
def readOperation : (depth : Nat) → List Char → Option (Expr × List Char)
  | 0, _ => none
  | depth + 1, text => do
    let (left, text) ← readOperand depth text
    match readInfix text with
    | some (operator, text) =>
      let (right, text) ← readOperand depth text
      return (.binary left operator right, text)
    | none => return (left, text)

/-- Operators in front, and what they stand in front of. -/
def readOperand : (depth : Nat) → List Char → Option (Expr × List Char)
  | 0, _ => none
  | _ + 1, [] => none
  | depth + 1, c :: text =>
    if isPrefixOperator c then do
      let (operand, text) ← readOperand depth text
      return (.unary (String.singleton c) operand, text)
    else do
      let (primary, text) ← readPrimary depth (c :: text)
      readAttached primary depth text

/-- A word, a string, or an expression in parentheses. -/
def readPrimary : (depth : Nat) → List Char → Option (Expr × List Char)
  | 0, _ => none
  | depth + 1, '(' :: text => do
    match ← readExpr depth text with
    | (inner, ')' :: text) => return (inner, text)
    | _ => none
  | _ + 1, '"' :: text => do
    let (value, text) ← unquote none text
    return (.string (String.ofList value), text)
  | _ + 1, c :: text =>
    if isNameChar c then
      some (wordExpr ((c :: text).takeWhile isNameChar), (c :: text).dropWhile isNameChar)
    else none
  | _ + 1, [] => none

/-- The calls and members that are attached to an operand. -/
def readAttached : Expr → (depth : Nat) → List Char → Option (Expr × List Char)
  | _, 0, _ => none
  | operand, depth + 1, '.' :: text =>
    readAttached (operand.behindOperators
      (.member · (String.ofList (text.takeWhile isNameChar)))) depth (text.dropWhile isNameChar)
  | operand, depth + 1, '(' :: text => do
    let (arguments, text) ← readArguments depth text
    readAttached (operand.behindOperators (.call · arguments)) depth text
  | operand, _ + 1, text => some (operand, text)

/-- Arguments up to the closing parenthesis. -/
def readArguments : (depth : Nat) → List Char → Option (List Expr × List Char)
  | 0, _ => none
  | _ + 1, ')' :: text => some ([], text)
  | depth + 1, text => do
    match ← readExpr depth text with
    | (first, ',' :: ' ' :: text) =>
      let (others, text) ← readArguments depth text
      return (first :: others, text)
    | (last, ')' :: text) => return ([last], text)
    | _ => none

end

/-- The reader takes the value off the text and leaves the rest, once it may go deep enough. -/
def Gives {α : Type} (reader : Nat → List Char → Option (α × List Char)) (text : List Char)
    (value : α) (rest : List Char) : Prop :=
  ∃ enough, ∀ depth, enough ≤ depth → reader depth text = some (value, rest)

/-- What may stand behind a word. -/
def Boundary (rest : List Char) : Prop := ∀ c ∈ rest.head?, isNameChar c = false

/-- What may stand behind an expression. -/
inductive Closes : List Char → Prop where
  | nothing : Closes []
  | parenthesis (rest : List Char) : Closes (')' :: rest)
  | comma (rest : List Char) : Closes (',' :: rest)

/-- What may stand behind an operation. -/
inductive Ends : List Char → Prop where
  | closes {rest : List Char} (closes : Closes rest) : Ends rest
  | assigns (rest : List Char) : Ends (' ' :: '=' :: ' ' :: rest)

/-- What may stand behind an operand and all that is attached to it. -/
inductive Detached : List Char → Prop where
  | closes {rest : List Char} (closes : Closes rest) : Detached rest
  | blank (rest : List Char) : Detached (' ' :: rest)

section Gives

variable {α : Type} {reader : Nat → List Char → Option (α × List Char)} {text rest : List Char}

theorem Gives.unique {first second : α} {behind : List Char} (gives : Gives reader text first rest)
    (also : Gives reader text second behind) : first = second := by
  obtain ⟨enough, reads⟩ := gives
  obtain ⟨more, again⟩ := also
  have one := reads (max enough more) (Nat.le_max_left ..)
  have other := again (max enough more) (Nat.le_max_right ..)
  exact congrArg Prod.fst (Option.some.inj (one.symm.trans other))

theorem gives_of_succ {value : α} (enough : Nat) (reads : ∀ depth, enough ≤ depth →
    reader (depth + 1) text = some (value, rest)) : Gives reader text value rest := by
  refine ⟨enough + 1, fun depth within => ?_⟩
  cases depth with
  | zero => omega
  | succ depth => exact reads depth (by omega)

end Gives

theorem boundary_cons {c : Char} (other : isNameChar c = false) (rest : List Char) :
    Boundary (c :: rest) := by
  intro first member
  cases member
  exact other

theorem Detached.boundary {rest : List Char} (detached : Detached rest) : Boundary rest := by
  cases detached with
  | closes closes =>
    cases closes with
    | nothing => nofun
    | parenthesis rest | comma rest => exact boundary_cons (by decide) rest
  | blank rest => exact boundary_cons (by decide) rest

theorem Ends.detached {rest : List Char} (ends : Ends rest) : Detached rest := by
  cases ends with
  | closes closes => exact .closes closes
  | assigns rest => exact .blank _

theorem Ends.readInfix_eq {rest : List Char} (ends : Ends rest) : readInfix rest = none := by
  cases ends with
  | closes closes => cases closes <;> rfl
  | assigns rest => rfl

section Levels

variable {text rest behind : List Char} {expression operand result : Expr}

/-- A word ends at the next boundary. -/
theorem span_word {word : List Char} (named : ∀ c ∈ word, isNameChar c = true)
    (boundary : Boundary rest) : (word ++ rest).takeWhile isNameChar = word ∧
      (word ++ rest).dropWhile isNameChar = rest := by
  rw [List.takeWhile_append_of_pos named, List.dropWhile_append_of_pos named]
  cases rest with
  | nil => simp
  | cons c rest => simp [boundary c rfl]

theorem gives_word {word : List Char} (some : word ≠ []) (named : ∀ c ∈ word, isNameChar c = true)
    (boundary : Boundary rest) : Gives readPrimary (word ++ rest) (wordExpr word) rest := by
  have whole := span_word named boundary
  obtain ⟨c, others, rfl⟩ := List.exists_cons_of_ne_nil some
  have first := named c (List.mem_cons_self ..)
  refine gives_of_succ 0 fun depth _ => ?_
  rw [List.cons_append] at whole ⊢
  rw [readPrimary, if_pos first, whole.1, whole.2]
  all_goals
    rintro rfl
    exact absurd first (by decide)

theorem gives_string (value : String) (rest : List Char) :
    Gives readPrimary ((quoted value).toList ++ rest) (.string value) rest := by
  refine gives_of_succ 0 fun depth _ => ?_
  have written : (quoted value).toList ++ rest =
      '"' :: (value.toList.flatMap escapeChar ++ '"' :: rest) := by simp [quoted]
  rw [written, readPrimary, unquote_quoted]
  simp

theorem gives_parenthesized (inner : Gives readExpr text expression (')' :: rest)) :
    Gives readPrimary ('(' :: text) expression rest := by
  obtain ⟨enough, reads⟩ := inner
  refine gives_of_succ enough fun depth within => ?_
  rw [readPrimary, reads depth within]
  rfl

theorem gives_attached {c : Char} (plain : isPrefixOperator c = false)
    (first : Gives readPrimary (c :: text) operand rest)
    (others : Gives (readAttached operand) rest result behind) :
    Gives readOperand (c :: text) result behind := by
  obtain ⟨enough, reads⟩ := first
  obtain ⟨more, attaches⟩ := others
  refine gives_of_succ (max enough more) fun depth within => ?_
  rw [readOperand, plain, if_neg Bool.false_ne_true, reads depth (by omega)]
  exact attaches depth (by omega)

theorem gives_prefixed {c : Char} (known : isPrefixOperator c = true)
    (inner : Gives readOperand text operand rest) :
    Gives readOperand (c :: text) (.unary (String.singleton c) operand) rest := by
  obtain ⟨enough, reads⟩ := inner
  refine gives_of_succ enough fun depth within => ?_
  rw [readOperand, if_pos known, reads depth within]
  rfl

theorem gives_nothing_attached (detached : Detached rest) :
    Gives (readAttached operand) rest operand rest := by
  refine gives_of_succ 0 fun depth _ => ?_
  cases detached with
  | closes closes => cases closes <;> rfl
  | blank rest => rfl

theorem gives_member {property : String} (named : isName property = true) (boundary : Boundary rest)
    (others : Gives (readAttached (operand.behindOperators (.member · property))) rest result behind) :
    Gives (readAttached operand) ('.' :: (property.toList ++ rest)) result behind := by
  obtain ⟨enough, attaches⟩ := others
  refine gives_of_succ enough fun depth within => ?_
  have whole := span_word (List.all_eq_true.1 (all_isNameChar_of_isName named)) boundary
  rw [readAttached, whole.1, whole.2, String.ofList_toList]
  exact attaches depth within

theorem gives_call {arguments : List Expr}
    (reads : Gives readArguments text arguments rest)
    (others : Gives (readAttached (operand.behindOperators (.call · arguments))) rest result behind) :
    Gives (readAttached operand) ('(' :: text) result behind := by
  obtain ⟨enough, reads⟩ := reads
  obtain ⟨more, attaches⟩ := others
  refine gives_of_succ (max enough more) fun depth within => ?_
  rw [readAttached, reads depth (by omega)]
  exact attaches depth (by omega)

/-- What is attached to an operand stands behind the operators in front of it. -/
theorem readAttached_unary (operator : String) (operand : Expr) (depth : Nat) (text : List Char) :
    readAttached (.unary operator operand) depth text =
      (readAttached operand depth text).map fun (operand, rest) =>
        (.unary operator operand, rest) := by
  induction depth generalizing operand text with
  | zero => rfl
  | succ depth ih =>
    rcases text with _ | ⟨c, text⟩
    · rfl
    by_cases dot : c = '.'
    · subst dot
      rw [readAttached, readAttached, Expr.behindOperators, ih]
    by_cases opens : c = '('
    · subst opens
      rw [readAttached, readAttached]
      cases readArguments depth text with
      | none => rfl
      | some found => exact ih _ _
    · rw [readAttached, readAttached]
      · rfl
      all_goals simp [dot, opens]

theorem Gives.prefixed {operator : String} {found : Expr}
    (gives : Gives (readAttached (.unary operator operand)) text found behind) :
    ∃ inner, found = .unary operator inner ∧ Gives (readAttached operand) text inner behind := by
  obtain ⟨enough, attaches⟩ := gives
  have first := attaches enough (Nat.le_refl _)
  rw [readAttached_unary, Option.map_eq_some_iff] at first
  obtain ⟨⟨inner, rest⟩, _, same⟩ := first
  cases same
  refine ⟨inner, rfl, enough, fun depth within => ?_⟩
  have again := attaches depth within
  rw [readAttached_unary, Option.map_eq_some_iff] at again
  obtain ⟨⟨other, rest⟩, here, same⟩ := again
  cases same
  exact here

theorem gives_operation (first : Gives readOperand text operand rest) (ends : Ends rest) :
    Gives readOperation text operand rest := by
  obtain ⟨enough, reads⟩ := first
  refine gives_of_succ enough fun depth within => ?_
  rw [readOperation, reads depth within]
  change (match readInfix rest with | some (operator, text) => _ | none => _) = _
  rw [ends.readInfix_eq]
  rfl

theorem readInfix_append {operator : String} (known : operator ∈ infixOperators) (rest : List Char) :
    readInfix (' ' :: (operator.toList ++ ' ' :: rest)) = some (operator, rest) := by
  simp only [infixOperators, List.mem_cons, List.not_mem_nil, or_false] at known
  rcases known with rfl | rfl | rfl | rfl | rfl | rfl <;> rfl

theorem gives_binary {left right : Expr} {operator : String} (known : operator ∈ infixOperators)
    (first : Gives readOperand text left (' ' :: (operator.toList ++ ' ' :: rest)))
    (second : Gives readOperand rest right behind) :
    Gives readOperation text (.binary left operator right) behind := by
  obtain ⟨enough, reads⟩ := first
  obtain ⟨more, others⟩ := second
  refine gives_of_succ (max enough more) fun depth within => ?_
  rw [readOperation, reads depth (by omega)]
  change (match readInfix _ with | some (operator, text) => _ | none => _) = _
  rw [readInfix_append known]
  change (readOperand depth rest >>= _) = _
  rw [others depth (by omega)]
  rfl

theorem gives_alone (first : Gives readOperation text expression rest) (closes : Closes rest) :
    Gives readExpr text expression rest := by
  obtain ⟨enough, reads⟩ := first
  refine gives_of_succ enough fun depth within => ?_
  rw [readExpr, reads depth within]
  cases closes <;> rfl

theorem gives_assigned {target value : Expr}
    (first : Gives readOperation text target (' ' :: '=' :: ' ' :: rest))
    (second : Gives readExpr rest value behind) :
    Gives readExpr text (.assign target value) behind := by
  obtain ⟨enough, reads⟩ := first
  obtain ⟨more, others⟩ := second
  refine gives_of_succ (max enough more) fun depth within => ?_
  rw [readExpr, reads depth (by omega)]
  change (readExpr depth rest >>= _) = _
  rw [others depth (by omega)]
  rfl

end Levels

/-- The expression can be read back in each place of the printed form. -/
structure ReadsBack (expression : Expr) : Prop where
  operand : ∀ {rest behind result}, Boundary rest →
    Gives (readAttached expression.regroup) rest result behind →
    Gives readOperand
      ((Expr.operandText expression.isCompound expression.text).toList ++ rest) result behind
  alone : ∀ {rest}, Closes rest →
    Gives readExpr (expression.text.toList ++ rest) expression.regroup rest
  target : ∀ {rest behind value}, Gives readExpr rest value behind →
    Gives readExpr (expression.text.toList ++ ' ' :: '=' :: ' ' :: rest)
      (Expr.chain expression.regroup value) behind

section ReadsBack

variable {expression : Expr}

/-- An operation is read back as an expression. -/
theorem readsBack_of_operation (plain : expression.regroup.isAssign = false)
    (operand : ∀ {rest behind result}, Boundary rest →
      Gives (readAttached expression.regroup) rest result behind →
      Gives readOperand
        ((Expr.operandText expression.isCompound expression.text).toList ++ rest) result behind)
    (operation : ∀ {rest}, Ends rest →
      Gives readOperation (expression.text.toList ++ rest) expression.regroup rest) :
    ReadsBack expression where
  operand := operand
  alone closes := gives_alone (operation (.closes closes)) closes
  target value := by
    rw [Expr.chain_of_not_assign plain]
    exact gives_assigned (operation (.assigns _)) value

/-- What takes no parentheses is read back as an operation. -/
theorem readsBack_of_operand (simple : expression.isCompound = false)
    (plain : expression.regroup.isAssign = false)
    (operand : ∀ {rest behind result}, Boundary rest →
      Gives (readAttached expression.regroup) rest result behind →
      Gives readOperand (expression.text.toList ++ rest) result behind) :
    ReadsBack expression := by
  refine readsBack_of_operation plain (fun boundary attached => ?_) fun ends =>
    gives_operation (operand ends.detached.boundary (gives_nothing_attached ends.detached)) ends
  rw [simple]
  exact operand boundary attached

/-- What takes parentheses is read back as an operand within them. -/
theorem operand_of_alone (compound : expression.isCompound = true)
    (alone : ∀ {rest}, Closes rest →
      Gives readExpr (expression.text.toList ++ rest) expression.regroup rest)
    {rest behind : List Char} {result : Expr}
    (attached : Gives (readAttached expression.regroup) rest result behind) :
    Gives readOperand
      ((Expr.operandText expression.isCompound expression.text).toList ++ rest) result behind := by
  have inner := gives_parenthesized (alone (.parenthesis rest))
  have whole := gives_attached (by decide) inner attached
  simpa [compound, Expr.operandText] using whole

/-- A word is read back. -/
theorem readsBack_of_word (word : String) {expression : Expr} (written : expression.text = word)
    (regrouped : expression.regroup = expression) (simple : expression.isCompound = false)
    (plain : expression.isAssign = false) (some : word.toList ≠ [])
    (named : word.toList.all isNameChar = true) (stands : wordExpr word.toList = expression) :
    ReadsBack expression := by
  rw [List.all_eq_true] at named
  refine readsBack_of_operand simple (regrouped.symm ▸ plain) fun boundary attached => ?_
  have first := gives_word some named boundary
  rw [stands, ← regrouped] at first
  rw [written]
  obtain ⟨c, others, same⟩ := List.exists_cons_of_ne_nil some
  rw [same] at first ⊢
  refine gives_attached ?_ first attached
  have here : isNameChar c = true := named c (same ▸ List.mem_cons_self ..)
  by_contra operator
  simp only [isPrefixOperator, Bool.not_eq_false, Bool.or_eq_true, beq_iff_eq] at operator
  rcases operator with (rfl | rfl) | rfl <;> exact absurd here (by decide)

/-- No expression begins with what closes a list of arguments. -/
theorem readExpr_parenthesis (depth : Nat) (rest : List Char) :
    readExpr depth (')' :: rest) = none := by
  rcases depth with _ | _ | _ | _ | depth <;> rfl

/-- Arguments go on with an expression wherever one can be read. -/
theorem readArguments_of_readExpr {depth : Nat} {text rest : List Char} {first : Expr}
    (reads : readExpr depth text = some (first, rest)) : readArguments (depth + 1) text = (do
      match ← readExpr depth text with
      | (first, ',' :: ' ' :: text) =>
        let (others, text) ← readArguments depth text
        return (first :: others, text)
      | (last, ')' :: text) => return ([last], text)
      | _ => none) := by
  rw [readArguments]
  rintro _ rfl
  rw [readExpr_parenthesis] at reads
  cases reads

theorem gives_arguments {arguments : List Expr}
    (each : ∀ argument ∈ arguments, ReadsBack argument) (rest : List Char) :
    Gives readArguments ((Expr.argumentsText arguments).toList ++ ')' :: rest)
      (Expr.regroupAll arguments) rest := by
  match arguments with
  | [] => exact gives_of_succ 0 fun depth _ => rfl
  | [last] =>
    obtain ⟨enough, alone⟩ := (each last (List.mem_cons_self ..)).alone (.parenthesis rest)
    refine gives_of_succ enough fun depth within => ?_
    have reads := alone depth within
    rw [Expr.argumentsText, readArguments_of_readExpr reads, reads]
    rfl
  | first :: second :: others =>
    obtain ⟨enough, alone⟩ := (each first (List.mem_cons_self ..)).alone
      (.comma (' ' :: ((Expr.argumentsText (second :: others)).toList ++ ')' :: rest)))
    obtain ⟨more, later⟩ := gives_arguments
      (fun argument member => each argument (List.mem_cons_of_mem _ member)) rest
    refine gives_of_succ (max enough more) fun depth within => ?_
    have reads := alone depth (by omega)
    have written : (Expr.argumentsText (first :: second :: others)).toList ++ ')' :: rest =
        first.text.toList ++
          ',' :: ' ' :: ((Expr.argumentsText (second :: others)).toList ++ ')' :: rest) := by
      simp [Expr.argumentsText]
    rw [written, readArguments_of_readExpr reads, reads]
    change (readArguments depth _ >>= _) = _
    rw [later depth (by omega)]
    rfl

/-- Every plain expression is read back as its canonical form. -/
theorem readsBack_of_plain (plain : expression.Plain) : ReadsBack expression := by
  induction plain with
  | @identifier name named =>
    have begins := named
    rw [isName, Bool.and_eq_true, Bool.and_eq_true] at begins
    exact readsBack_of_word _ rfl rfl rfl rfl (ne_nil_of_head begins.1.1)
      (all_isNameChar_of_isName named) (wordExpr_of_isName named)
  | @number literal digits =>
    have begins := digits
    rw [isDigits, Bool.and_eq_true] at begins
    exact readsBack_of_word _ rfl rfl rfl rfl (ne_nil_of_head begins.1)
      (all_isNameChar_of_isDigits digits) (wordExpr_of_isDigits digits)
  | string value =>
    refine readsBack_of_operand rfl rfl fun {rest behind result} boundary attached => ?_
    have first := gives_string value rest
    have written : (Expr.string value).text.toList = '"' :: (value.toList.flatMap escapeChar ++ ['"']) := by
      simp [Expr.text, quoted]
    rw [← Expr.text, written] at first
    rw [written]
    exact gives_attached (by decide) first attached
  | boolean value =>
    cases value with
    | true => exact readsBack_of_word "true" rfl rfl rfl rfl (by decide) rfl rfl
    | false => exact readsBack_of_word "false" rfl rfl rfl rfl (by decide) rfl rfl
  | null => exact readsBack_of_word "null" rfl rfl rfl rfl (by decide) rfl rfl
  | unary known inner ih =>
    refine readsBack_of_operand rfl rfl fun boundary attached => ?_
    obtain ⟨found, rfl, others⟩ := attached.prefixed
    obtain ⟨c, isOperator, rfl⟩ := prefixOperators_inv known
    have whole := gives_prefixed isOperator (ih.operand boundary others)
    simpa [Expr.text] using whole
  | @binary left right operator before known behind ihLeft ihRight =>
    have operation {rest : List Char} (ends : Ends rest) : Gives readOperation
        ((Expr.binary left operator right).text.toList ++ rest)
        (Expr.binary left operator right).regroup rest := by
      have second := ihRight.operand ends.detached.boundary (gives_nothing_attached ends.detached)
      have blank := Detached.blank (operator.toList ++ ' ' ::
        ((Expr.operandText right.isCompound right.text).toList ++ rest))
      have first := ihLeft.operand blank.boundary (gives_nothing_attached blank)
      simpa [Expr.text, Expr.regroup] using gives_binary known first second
    exact readsBack_of_operation rfl
      (fun _ attached => operand_of_alone rfl
        (fun closes => gives_alone (operation (.closes closes)) closes) attached) operation
  | @assign target value before behind ihTarget ihValue =>
    have written (rest : List Char) : (Expr.assign target value).text.toList ++ rest =
        target.text.toList ++ ' ' :: '=' :: ' ' :: (value.text.toList ++ rest) := by
      simp [Expr.text]
    have alone {rest : List Char} (closes : Closes rest) : Gives readExpr
        ((Expr.assign target value).text.toList ++ rest) (Expr.assign target value).regroup rest := by
      rw [written]
      exact ihTarget.target (ihValue.alone closes)
    refine ⟨fun _ attached => operand_of_alone rfl alone attached, alone, fun others => ?_⟩
    rw [written, Expr.regroup, Expr.chain_chain]
    exact ihTarget.target (ihValue.target others)
  | @call callee arguments called each ihCallee ihEach =>
    refine readsBack_of_operand rfl
      (Expr.isAssign_of_not_compound (Expr.text_behindCall _ _).1) fun {rest _ _} _ attached => ?_
    have whole := ihCallee.operand (boundary_cons (by decide) _)
      (gives_call (gives_arguments ihEach rest) attached)
    simpa [Expr.text] using whole
  | @member object property inner named ih =>
    refine readsBack_of_operand rfl
      (Expr.isAssign_of_not_compound (Expr.text_behindMember _ _).1) fun boundary attached => ?_
    have whole := ih.operand (boundary_cons (by decide) _) (gives_member named boundary attached)
    simpa [Expr.text] using whole

end ReadsBack

end Reader

/-- Two plain expressions have the same text exactly when they have the same canonical form, that is,
when they differ only in whether operators in front stand inside or outside calls and members, and in
how chains of assignments are grouped. So no two grouped expressions have the same text, and every
plain expression shares its text with a grouped one. -/
theorem text_eq_iff {first second : Expr} (plain : first.Plain) (also : second.Plain) :
    (first.text = second.text ↔ first.regroup = second.regroup) ∧
      (first.isGrouped = true → second.isGrouped = true → first.text = second.text →
        first = second) ∧
      first.regroup.Plain ∧ first.regroup.isGrouped = true ∧ first.regroup.text = first.text := by
  have same : first.text = second.text ↔ first.regroup = second.regroup := by
    constructor
    · intro written
      have reads := (readsBack_of_plain plain).alone .nothing
      rw [written] at reads
      exact reads.unique ((readsBack_of_plain also).alone .nothing)
    · intro regrouped
      rw [← first.text_regroup, regrouped, second.text_regroup]
  refine ⟨same, fun grouped groupedToo written => ?_, plain.plain_regroup, first.isGrouped_regroup,
    first.text_regroup⟩
  rw [← first.regroup_of_isGrouped grouped, same.1 written, second.regroup_of_isGrouped groupedToo]

/-- A negated object with a member, and an assignment that is assigned to. -/
def negatedObject : Expr :=
  .assign (.assign (.member (.unary "-" (.identifier "a")) "b") (.string "c")) (.number "1")

/-- A negated member, and an assignment whose value is assigned. -/
def negatedMember : Expr :=
  .assign (.unary "-" (.member (.identifier "a") "b")) (.assign (.string "c") (.number "1"))

/-- The printed form does not show whether an operator in front applies to a member or to the object
alone, nor which way two assignments are grouped. -/
theorem text_eq_iff_negatedMember : negatedObject.Plain ∧ negatedMember.Plain ∧
    negatedObject.text = negatedMember.text ∧ negatedObject ≠ negatedMember ∧
      negatedObject.isGrouped = false ∧ negatedMember.isGrouped = true := by
  have named (name : String) (short : isName name = true) : (Expr.identifier name).Plain :=
    .identifier short
  have object : (Expr.member (.unary "-" (.identifier "a")) "b").Plain :=
    .member (.unary (by decide) (named "a" (by decide))) (by decide)
  have whole : (Expr.unary "-" (.member (.identifier "a") "b")).Plain :=
    .unary (by decide) (.member (named "a" (by decide)) (by decide))
  have left : negatedObject.Plain := .assign (.assign object (.string _)) (.number (by decide))
  have right : negatedMember.Plain := .assign whole (.assign (.string _) (.number (by decide)))
  have different : negatedObject ≠ negatedMember := by simp [negatedObject, negatedMember]
  exact ⟨left, right, (text_eq_iff left right).1.2 rfl, different, rfl, rfl⟩

end Unnest.Script
