import Unnest.Proofs.Flatten.Free
import Unnest.Proofs.Flatten.Unrun
import Unnest.Script.Equality

/-! What becomes of each statement. Statements without labels are put into blocks as they are,
and from a loop that is taken apart its iterator is left over, so the blocks hold exactly
the pieces of the body, in another order. -/

namespace Unnest.Flatten
open Script

/-- The iterator of a `for` loop that contains labels, as the statement that it becomes. -/
def stepOf : Stmt → Option Stmt
  | .forLoop init condition (some iterator) body =>
    if (Stmt.forLoop init condition (some iterator) body).containsLabels then
      some (.expression iterator)
    else none
  | _ => none

/-- The statement is put into a block as it is. -/
def verbatim (statement : Stmt) : Bool :=
  match statement.kind with
  | .expression | .ret | .throw | .function | .switch => true
  | .whileLoop | .doLoop | .forLoop => !statement.containsLabels
  | _ => false

/-- What the statement itself puts into the blocks. -/
def pieceOf (statement : Stmt) : List Stmt :=
  if verbatim statement then [statement] else (stepOf statement).toList

/-- What the statement and those below it put into the blocks. -/
def piecesOf (statement : Stmt) : List Stmt := statement.nodes.flatMap pieceOf

def pieces (statements : List Stmt) : List Stmt := statements.flatMap piecesOf

section Pieces

variable {targets : LoopTargets} {before after statement : Stmt} {body inner : List Stmt}

theorem piecesOf_eq (statement : Stmt) :
    piecesOf statement = pieceOf statement ++ statement.children.flatMap piecesOf := by
  rw [piecesOf, Stmt.nodes_eq, List.flatMap_cons, List.flatMap_assoc]
  rfl

theorem piecesOf_children (statement : Stmt) :
    piecesOf statement = pieceOf statement ++ pieces statement.children :=
  piecesOf_eq statement

theorem pieces_eq (statements : List Stmt) : pieces statements = (nodes statements).flatMap pieceOf :=
  List.flatMap_assoc.symm

@[simp] theorem pieces_nil : pieces [] = [] := rfl

@[simp] theorem pieces_cons (first : Stmt) (rest : List Stmt) :
    pieces (first :: rest) = piecesOf first ++ pieces rest := rfl

@[simp] theorem pieces_append (front back : List Stmt) :
    pieces (front ++ back) = pieces front ++ pieces back := List.flatMap_append

@[simp] theorem piecesOf_goto (target : String) : piecesOf (.goto target) = [] := by
  rw [piecesOf_children]
  rfl

@[simp] theorem piecesOf_empty : piecesOf .empty = [] := by
  rw [piecesOf_children]
  rfl

@[simp] theorem piecesOf_expression (value : Expr) :
    piecesOf (.expression value) = [.expression value] := by
  rw [piecesOf_children]
  rfl

@[simp] theorem piecesOf_block (body : List Stmt) : piecesOf (.block body) = pieces body := by
  rw [piecesOf_children]
  rfl

@[simp] theorem piecesOf_labeled (label : String) (body : Stmt) :
    piecesOf (.labeled label body) = piecesOf body := by
  rw [piecesOf_children, Stmt.children, pieces_cons, pieces_nil, List.append_nil]
  rfl

@[simp] theorem piecesOf_branch (test : Expr) (thenBody : List Stmt)
    (elseBody : Option (List Stmt)) : piecesOf (.branch test thenBody elseBody) =
      pieces thenBody ++ pieces (elseBody.getD []) := by
  rw [piecesOf_children, ← pieces_append]
  rfl

theorem pieceOf_redirected (success : redirectStmt targets before = .ok after) :
    pieceOf after = pieceOf before := by
  cases redirected_of_redirectStmt success <;> rfl

theorem pieces_redirect (redirects : redirect targets body = .ok inner) :
    pieces inner = pieces body :=
  (redirectedAll_of_redirect redirects).flatMap_eq fun _ _ _ success =>
    flatMap_of_redirectStmt pieceOf piecesOf_eq (fun _ _ => pieceOf_redirected) success

theorem pieces_jump (spot : Spot) (label : String) : pieces (spot.jump label) = [] := by
  unfold Spot.jump
  split <;> simp

theorem pieces_guard {stem loopName fallThrough : String} {ledger named : Ledger}
    {head : LoopHead} {following : Continuation Stmt} {plan : LoopPlan}
    (planned : layout stem head body loopName following fallThrough ledger = (plan, named)) :
    pieces plan.guard = [] := by
  rw [pieces, List.flatMap_eq_nil_iff]
  intro statement member
  obtain ⟨label, condition, rfl⟩ := layout_guard planned statement member
  simp [exitGuard, Stmt.ifThen]

/-- A loop that is taken apart is not put into a block, and its iterator is. -/
theorem pieceOf_loop {loop : Stmt} {head : LoopHead} (labeled : loop.containsLabels = true)
    (isLoop : loopOf loop = some (head, body)) : pieceOf loop = pieces head.step := by
  cases loop <;> simp only [loopOf, reduceCtorEq, Option.some.injEq, Prod.mk.injEq] at isLoop <;>
    obtain ⟨rfl, rfl⟩ := isLoop
  · simp [pieceOf, verbatim, Stmt.kind, labeled, stepOf, LoopHead.step]
  · simp [pieceOf, verbatim, Stmt.kind, labeled, stepOf, LoopHead.step]
  · next init condition iterator body =>
    cases iterator with
    | none => simp [pieceOf, verbatim, Stmt.kind, labeled, stepOf, LoopHead.step]
    | some iterator => simp [pieceOf, verbatim, Stmt.kind, labeled, stepOf, LoopHead.step]

/-- Without its initializer, a loop contains the same labels. -/
theorem containsLabels_emptyInit {init : Stmt} {condition iterator : Option Expr}
    (labeled : (Stmt.forLoop init condition iterator body).containsLabels = true)
    (plainInit : (LoopHead.forHead init condition iterator).labeledInit = none) :
    (Stmt.forLoop .empty condition iterator body).containsLabels = true := by
  have free : init.containsLabels = false := by simpa [LoopHead.labeledInit] using plainInit
  rw [Stmt.containsLabels_eq, Stmt.children, List.any_cons, Bool.or_eq_true,
    Bool.or_eq_true] at labeled ⊢
  rw [free] at labeled
  exact labeled.imp_right fun inside => .inr (inside.resolve_left Bool.false_ne_true)

/-- A loop that is taken apart leaves its initializer, unless that has run, its iterator and
its body. -/
theorem pieces_loop {loop : Stmt} {head : LoopHead} (afterInit : Bool)
    (labeled : loop.containsLabels = true) (isLoop : loopOf loop = some (head, body))
    (plainInit : head.labeledInit = none) :
    (piecesOf (unrunOf afterInit loop)).Perm
      (pieces (head.pendingInit afterInit) ++ (pieces head.step ++ pieces body)) := by
  cases loop <;> simp only [loopOf, reduceCtorEq, Option.some.injEq, Prod.mk.injEq] at isLoop <;>
    obtain ⟨rfl, rfl⟩ := isLoop
  · next condition body =>
    have same : unrunOf afterInit (.whileLoop condition body) = .whileLoop condition body := by
      cases afterInit <;> rfl
    rw [same, piecesOf_children, pieceOf_loop labeled rfl]
    exact .refl _
  · next body condition =>
    have same : unrunOf afterInit (.doLoop body condition) = .doLoop body condition := by
      cases afterInit <;> rfl
    rw [same, piecesOf_children, pieceOf_loop labeled rfl]
    exact .refl _
  · next init condition iterator body =>
    cases afterInit with
    | true =>
      have none : (LoopHead.forHead init condition iterator).pendingInit true = [] := by
        cases init <;> rfl
      rw [none, unrunOf, if_pos rfl, withoutInit, piecesOf_children,
        pieceOf_loop (containsLabels_emptyInit labeled plainInit) rfl, Stmt.children, pieces_cons,
        piecesOf_empty]
      exact .refl _
    | false =>
      have whole : pieces ((LoopHead.forHead init condition iterator).pendingInit false) =
          piecesOf init := by
        cases init <;> simp [LoopHead.pendingInit]
      rw [whole, unrunOf, if_neg Bool.false_ne_true, piecesOf_children, pieceOf_loop labeled rfl,
        Stmt.children, pieces_cons, ← List.append_assoc, ← List.append_assoc]
      exact List.perm_append_comm.append_right _

/-- Behind a label that is bound, the same pieces are left. -/
theorem Passed.pieces {isBound : String → Bool} {current inner : Stmt}
    (passed : Passed isBound current inner) (afterInit : Bool) :
    piecesOf (unrunOf afterInit current) = piecesOf (unrunOf afterInit inner) := by
  cases passed with
  | plain own => rfl
  | below bound =>
    cases afterInit with
    | false => exact piecesOf_labeled _ _
    | true => exact piecesOf_labeled _ _

end Pieces

/-- The pieces that the blocks have still to come to. -/
def waiting (blocks : List Pending) : List Stmt :=
  blocks.flatMap fun block => pieces block.continuation.unrun

/-- Of the pieces that are found, some have been placed, and the others wait in the blocks
that are scheduled in between. -/
def Yields (placed found : List Stmt) (ledger later : Ledger) : Prop :=
  ∃ more, later.sent = ledger.sent ++ more ∧ found.Perm (placed ++ waiting more)

section Yields

variable {stem fallThrough : String} {ledger between later : Ledger}
  {placed others found further : List Stmt}

theorem Yields.none : Yields [] [] ledger ledger := ⟨[], (List.append_nil _).symm, .nil⟩

theorem Yields.perm (yields : Yields placed found ledger later) (same : found.Perm further) :
    Yields placed further ledger later := by
  obtain ⟨more, sent, conserved⟩ := yields
  exact ⟨more, sent, same.symm.trans conserved⟩

theorem Yields.minted (yields : Yields placed found between later)
    (same : between.sent = ledger.sent) : Yields placed found ledger later := by
  obtain ⟨more, sent, conserved⟩ := yields
  exact ⟨more, by rw [sent, same], conserved⟩

theorem Yields.trans (first : Yields placed found ledger between)
    (second : Yields others further between later) :
    Yields (placed ++ others) (found ++ further) ledger later := by
  obtain ⟨front, sentFront, conservedFront⟩ := first
  obtain ⟨back, sentBack, conservedBack⟩ := second
  refine ⟨front ++ back, by rw [sentBack, sentFront, List.append_assoc], ?_⟩
  rw [waiting, List.flatMap_append]
  apply (conservedFront.append conservedBack).trans
  rw [List.append_assoc, List.append_assoc]
  apply List.Perm.append_left
  rw [← List.append_assoc, ← List.append_assoc]
  exact List.perm_append_comm.append_right _

/-- Statements that are put into the block right away. -/
theorem Yields.place (yields : Yields others found ledger later) (placed : List Stmt) :
    Yields (placed ++ others) (placed ++ found) ledger later := by
  obtain ⟨more, sent, conserved⟩ := yields
  exact ⟨more, sent, by rw [List.append_assoc]; exact conserved.append_left _⟩

theorem Yields.ofSend {block : Pending} (sent : ledger.send? block = some later) :
    Yields [] (pieces block.continuation.unrun) ledger later :=
  ⟨[block], by rw [(Ledger.send_inv sent).2], by simp [waiting]⟩

theorem Yields.ofSendAll {blocks : List Pending} (sent : ledger.sendAll? blocks = some later) :
    Yields [] (waiting blocks) ledger later :=
  ⟨blocks, by rw [Ledger.sendAll_inv sent], .refl _⟩

/-- The code that follows a branch is scheduled or placed on the spot. -/
theorem Yields.settle {following : Continuation Stmt} {after : Successor} {settled : Ledger}
    (settles : ledger.settle? after following fallThrough = some settled)
    (yields : Yields placed (pieces (after.leftover following).unrun) settled later) :
    Yields placed (pieces following.unrun) ledger later := by
  cases after with
  | next | fallThrough =>
    cases settles
    exact yields
  | fresh name =>
    have both := (Yields.ofSend settles).trans yields
    rwa [Successor.leftover, show (Continuation.empty : Continuation Stmt).unrun = [] from rfl,
      pieces_nil, List.append_nil] at both

/-- Where no loop is resumed, everything that remains is still to come. -/
theorem unrun_of_whole {code : Continuation Stmt} (whole : code.Whole) :
    code.unrun = code.remaining := by
  rw [Continuation.unrun, Continuation.remaining]
  apply List.flatMap_congr
  intro frame member
  rw [Frame.unrun, whole frame member]
  cases frame.remaining <;> rfl

/-- The promised blocks hold the iterator of the loop and the code that follows it. -/
theorem layout_waiting {head : LoopHead} {body : List Stmt} {loopName : String}
    {following : Continuation Stmt} {plan : LoopPlan} (whole : following.Whole)
    (planned : layout stem head body loopName following fallThrough ledger = (plan, between)) :
    waiting (plan.promises.map Promise.block) = pieces head.step ++ pieces following.unrun := by
  rw [unrun_of_whole whole, pieces, pieces,
    ← layout_reads piecesOf piecesOf_goto (fun _ => by simp [loopCheck, Stmt.ifThen]) planned,
    waiting, List.flatMap_map]
  apply List.flatMap_congr
  intro promise member
  rw [unrun_of_whole ((layout_promising planned).plain whole promise member).whole]
  rfl

theorem pieces_flatBranch {test : Expr} {thenFlat elseFlat : List Stmt}
    {elseBody : Option (List Stmt)} {label : String}
    (nothing : elseBody = Option.none → pieces elseFlat = []) :
    pieces (flatBranch test thenFlat (elseBody.map fun _ => elseFlat) label) =
      pieces thenFlat ++ pieces elseFlat := by
  cases elseBody with
  | none => simp [flatBranch, nothing rfl]
  | some body => simp [flatBranch]

/-- Nothing is placed for an alternative that is missing. -/
theorem Yields.nothing (yields : Yields placed [] ledger later) : placed = [] := by
  obtain ⟨more, _, conserved⟩ := yields
  exact (List.append_eq_nil_iff.1 conserved.nil_eq.symm).1

/-- Placing code puts its pieces into the block or leaves them to the blocks it schedules. -/
theorem Placed.yields {code : Continuation Stmt} {spot : Spot} {out : List Stmt}
    (placed : Placed stem ledger code fallThrough spot out later) :
    Yields (pieces out) (pieces code.unrun) ledger later := by
  induction placed with
  | ends nothing =>
    rw [pieces_jump, unrun_eq_nil (Continuation.remaining_of_pop_none nothing)]
    exact .none
  | opens met owned arrival sent =>
    rw [pieces_jump]
    exact .ofSend sent
  | unwraps met owned arrival placed ih =>
    rwa [unrun_of_at met, pieces_cons, (passed_of_unwraps arrival).pieces, ← pieces_cons]
  | copies met owned arrival free plain placed ih =>
    rw [unrun_of_at met]
    simp only [pieces_cons]
    rw [(runs_inv arrival).2.pieces, owned.started_of_free arrival free]
    exact ih.place _
  | splices met owned arrival labeled placed ih =>
    rw [unrun_push, unrun_plain, List.drop_zero, pieces_append] at ih
    rwa [unrun_of_at met, pieces_cons, (runs_inv arrival).2.pieces, unrunOf_block, piecesOf_block]
  | @branches ledger named between settled further later code rest frame current test thenBody
      elseBody fallThrough spot after thenFlat elseFlat _ met owned arrival labeled chosen thenPlaced
      elsePlaced settles placed ihThen ihElse ih =>
    rw [unrun_ofBlock] at ihThen ihElse
    have absent : elseBody = Option.none → pieces elseFlat = [] := by
      rintro rfl
      exact ihElse.nothing
    have whole := ihThen.trans (ihElse.trans (Yields.settle settles ih))
    rw [unrun_of_at met, pieces_cons, (runs_inv arrival).2.pieces, unrunOf_branch, piecesOf_branch,
      pieces_append, pieces_flatBranch absent, List.append_assoc, List.append_assoc]
    exact whole.minted (chosen_of_successor chosen).sent
  | @inlines ledger named between later code rest frame current loop head body inner flat loopName
      fallThrough spot plan met owned arrival labeled isLoop plainInit start ready planned redirects
      placed kept ih =>
    have promised := Yields.ofSendAll kept
    rw [layout_waiting (Continuation.whole_pushFollowing owned.behind frame) planned] at promised
    rw [unrun_ofBlock, pieces_redirect redirects] at ih
    have whole := (ih.trans promised).minted (layout_promising planned).sent
    rw [List.append_nil] at whole
    rw [unrun_of_at met, pieces_cons, (runs_inv arrival).2.pieces, pieces_append,
      pieces_guard planned, List.nil_append]
    apply whole.perm
    have taken := pieces_loop frame.afterInit labeled isLoop plainInit
    rw [ready, pieces_nil, List.nil_append] at taken
    apply List.Perm.trans _ (taken.append_right _).symm
    rw [← List.append_assoc]
    exact List.perm_append_comm.append_right _
  | @splits ledger later code rest frame current loop head body fallThrough spot met owned arrival
      labeled isLoop plainInit unready sent =>
    have passed := (runs_inv arrival).2
    have deferred := (Yields.ofSend sent).place (pieces (head.pendingInit frame.afterInit))
    have taken := pieces_loop frame.afterInit labeled isLoop plainInit
    have resumed := pieces_loop (head.resumption frame).afterInit labeled isLoop plainInit
    rw [head.pendingInit_resumption, pieces_nil, List.nil_append] at resumed
    rw [unrun_of_at (At.resumption met head), pieces_cons, passed.pieces,
      pushFollowing_resumption, List.append_nil] at deferred
    rw [unrun_of_at met, pieces_cons, passed.pieces, pieces_append, pieces_cons, piecesOf_goto,
      pieces_nil, List.append_nil, List.append_nil]
    apply Yields.perm (deferred.minted rfl)
    rw [← List.append_assoc]
    exact ((resumed.append_left _).trans taken.symm).append_right _

/-- The pieces that wait are put into the blocks that are made, or go on waiting. -/
theorem Made.yields {done last : Nat} {blocks : List LabeledBlock}
    (made : Made stem done ledger blocks last later) :
    (waiting (ledger.sent.drop done)).Perm
      ((blocks.flatMap fun block => pieces block.statements) ++ waiting (later.sent.drop last)) := by
  induction made with
  | stops => exact .refl _
  | @makes done last ledger between later block out others waits placed made ih =>
    obtain ⟨more, sent, conserved⟩ := placed.yields
    have within := (List.getElem?_eq_some_iff.1 waits).1
    rw [sent, List.drop_append_of_le_length within, waiting, List.flatMap_append] at ih
    rw [drop_of_waits waits, waiting, List.flatMap_cons, List.flatMap_cons, List.append_assoc]
    apply List.Perm.trans _ (ih.append_left _)
    apply (conserved.append_right _).trans
    rw [List.append_assoc]
    exact List.perm_append_comm.append_left _

end Yields

section Result

variable {options : Options} {body : List Stmt} {blocks : List LabeledBlock} {statement : Stmt}

/-- The blocks hold the pieces of the body. -/
theorem Flattened.pieces_perm (flattened : Flattened options body blocks) :
    (pieces (blocks.flatMap LabeledBlock.statements)).Perm (pieces body) := by
  rw [pieces, List.flatMap_assoc]
  cases flattened with
  | nothing accepted => simp
  | something accepted made =>
    have conserved := made.yields
    have entry : waiting ((entryLedger options body).sent.drop 0) = pieces body := by
      simp [waiting, entryLedger]
    rw [entry, List.drop_length, show waiting [] = [] from rfl, List.append_nil] at conserved
    exact conserved.symm

theorem stepOf_of_free (free : statement.containsLabels = false) : stepOf statement = none := by
  cases statement with
  | forLoop init condition iterator body =>
    cases iterator with
    | none => rfl
    | some iterator => rw [stepOf, free, if_neg Bool.false_ne_true]
  | _ => rfl

theorem stepOf_of_verbatim (whole : verbatim statement = true) : stepOf statement = none := by
  cases statement with
  | forLoop init condition iterator body =>
    exact stepOf_of_free (by simpa [verbatim, Stmt.kind] using whole)
  | _ => rfl

/-- A statement that is put into blocks as it is comes from its own occurrences, and from the
iterators that become the same statement. -/
theorem count_pieceOf (whole : verbatim statement = true) (node : Stmt) :
    (pieceOf node).count statement =
      [node].count statement + if stepOf node = some statement then 1 else 0 := by
  by_cases kept : verbatim node = true
  · rw [pieceOf, if_pos kept, stepOf_of_verbatim kept]
    rfl
  · have other : node ≠ statement := by
      rintro rfl
      exact kept whole
    rw [pieceOf, if_neg kept]
    cases stepOf node <;> simp [List.count_singleton, other]

theorem count_pieces (whole : verbatim statement = true) (statements : List Stmt) :
    (pieces statements).count statement = (nodes statements).count statement +
      (nodes statements).countP fun loop => stepOf loop = some statement := by
  rw [pieces_eq]
  induction nodes statements with
  | nil => rfl
  | cons node rest ih =>
    rw [List.flatMap_cons, List.count_append, ih, count_pieceOf whole, List.countP_cons]
    simp only [List.count_cons, List.count_nil, decide_eq_true_eq]
    omega

/-- No statement of the blocks is or contains a labeled statement. -/
theorem Flattened.unlabeled (flattened : Flattened options body blocks) :
    ∀ node ∈ nodes (blocks.flatMap LabeledBlock.statements), node.containsLabels = false := by
  intro node member
  obtain ⟨statement, inBlocks, below⟩ := mem_nodes.1 member
  obtain ⟨block, inside, holds⟩ := List.mem_flatMap.1 inBlocks
  exact unlabeled_of_free (labels_eq_nil_iff_forall.1 (flattened.free block inside) statement holds)
    below

theorem Flattened.count (flattened : Flattened options body blocks)
    (whole : verbatim statement = true) :
    (nodes (blocks.flatMap LabeledBlock.statements)).count statement =
      (nodes body).count statement +
        (nodes body).countP fun loop => stepOf loop = some statement := by
  have none : (nodes (blocks.flatMap LabeledBlock.statements)).countP
      (fun loop => stepOf loop = some statement) = 0 := by
    rw [List.countP_eq_zero]
    intro node member
    simp [stepOf_of_free (flattened.unlabeled node member)]
  rw [← count_pieces whole, ← flattened.pieces_perm.count_eq, count_pieces whole, none, Nat.add_zero]

theorem stepOf_kind {loop : Stmt} (steps : stepOf loop = some statement) :
    statement.kind = .expression := by
  cases loop with
  | forLoop init condition iterator body =>
    cases iterator with
    | none => cases steps
    | some iterator =>
      rw [stepOf] at steps
      split at steps
      · cases steps
        rfl
      · cases steps
  | _ => cases steps

/-- No code is lost or put into blocks twice. Expressions, returns, throws, functions and
switches occur in the blocks as often as in the body, and the iterator of each `for` loop that
contains labels occurs once more as a statement. Loops without labels stay as they are, and
labels and the loops around them are gone. So an initializer that occurs once in the body is
run in one place only. -/
theorem pieces_of_flatten (success : flatten options body = .ok blocks) :
    (∀ statement, statement.kind ∈ [.expression, .ret, .throw, .function, .switch] →
      (nodes (blocks.flatMap LabeledBlock.statements)).count statement =
        (nodes body).count statement +
          (nodes body).countP fun loop => stepOf loop = some statement) ∧
      (∀ statement, statement.kind ∈ [.whileLoop, .doLoop, .forLoop] →
        statement.containsLabels = false →
          (nodes (blocks.flatMap LabeledBlock.statements)).count statement =
            (nodes body).count statement) ∧
      (∀ node ∈ nodes (blocks.flatMap LabeledBlock.statements), node.containsLabels = false) ∧
      (∀ init condition iterator loopBody,
        .forLoop init condition iterator loopBody ∈ nodes body →
        (Stmt.forLoop init condition iterator loopBody).containsLabels = true →
        init.kind = .expression → (nodes body).count init = 1 →
        (∀ loop ∈ nodes body, stepOf loop ≠ some init) →
          (nodes (blocks.flatMap LabeledBlock.statements)).count init = 1) := by
  have flattened := flattened_of_flatten success
  refine ⟨fun statement kept => flattened.count ?_, fun statement isLoop free => ?_,
    flattened.unlabeled, fun init _ _ _ _ _ isExpression once other => ?_⟩
  · simp only [List.mem_cons, List.not_mem_nil, or_false] at kept
    rcases kept with kind | kind | kind | kind | kind
    all_goals simp [verbatim, kind]
  · simp only [List.mem_cons, List.not_mem_nil, or_false] at isLoop
    have whole : verbatim statement = true := by
      rcases isLoop with kind | kind | kind
      all_goals simp [verbatim, kind, free]
    have none : (nodes body).countP (fun loop => stepOf loop = some statement) = 0 := by
      rw [List.countP_eq_zero]
      intro node member
      rw [decide_eq_true_eq]
      intro steps
      rw [stepOf_kind steps] at isLoop
      simp at isLoop
    rw [flattened.count whole, none, Nat.add_zero]
  · have none : (nodes body).countP (fun loop => stepOf loop = some init) = 0 := by
      rw [List.countP_eq_zero]
      intro node member
      simpa using other node member
    rw [flattened.count (by simp [verbatim, isExpression]), once, none]

/-- The initializer and the iterator of the loop each become one statement. -/
theorem pieces_of_flatten_labeledFor :
    (nodes (labeledForBlocks.flatMap LabeledBlock.statements)).count
        (.expression (.identifier "start")) = 1 ∧
      (nodes (labeledForBlocks.flatMap LabeledBlock.statements)).count
        (.expression (.identifier "step")) = 1 := by
  obtain ⟨counts, _⟩ := pieces_of_flatten flatten_labeledFor
  rw [counts _ (List.mem_cons_self ..), counts _ (List.mem_cons_self ..), nodes_labeledFor]
  simp [stepOf, containsLabels_labeledFor]

end Result

end Unnest.Flatten
