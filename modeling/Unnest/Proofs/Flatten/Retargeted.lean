import Unnest.Proofs.Flatten.Redirected

/-! Redirecting twice. Where no jump within reach has a label, redirecting is a total function,
which leaves nothing for a second pass but the breaks it had no target for. So two passes are
one pass, with the second target for breaks where the first is missing. -/

namespace Unnest.Flatten
open Script

section Reach

/-- The statements below that are looked into for the jumps of a loop. -/
def entered : Stmt → List Stmt
  | .block body => body
  | .branch _ thenBody elseBody => thenBody ++ elseBody.getD []
  | .labeled _ body => [body]
  | _ => []

theorem entered_subset (statement : Stmt) : entered statement ⊆ statement.children := by
  cases statement with
  | block | branch | labeled => exact List.Subset.refl _
  | _ => exact List.nil_subset _

/-- The statement and everything below that blocks, branches and labels lead to. -/
def reachOf (statement : Stmt) : List Stmt :=
  statement :: (entered statement).attach.flatMap fun ⟨child, _⟩ => reachOf child
termination_by sizeOf statement
decreasing_by exact Stmt.sizeOf_lt_of_mem_children (entered_subset statement ‹_›)

/-- Everything in a body that blocks, branches and labels lead to, in source order. -/
def reach (body : List Stmt) : List Stmt := body.flatMap reachOf

theorem reachOf_eq (statement : Stmt) :
    reachOf statement = statement :: reach (entered statement) := by
  rw [reachOf, reach]
  simp

theorem enteredInduction {motive : Stmt → Prop}
    (step : ∀ parent, (∀ child ∈ entered parent, motive child) → motive parent)
    (statement : Stmt) : motive statement := by
  induction statement using Stmt.childInduction with
  | step parent ih => exact step parent fun child member => ih child (entered_subset parent member)

/-- The first jump within reach that has a label. -/
def namedInReach (body : List Stmt) : Option (Kind × String) :=
  (reach body).findSome? Stmt.ownNamedJump

end Reach

section Retarget

variable (targets : LoopTargets)

mutual

/-- The statement with the jumps of the loop around it turned into gotos. -/
def retargetStmt : Stmt → Stmt
  | .breakJump none =>
    match targets.breakTo with
    | some target => .goto target
    | none => .breakJump none
  | .continueJump none => .goto targets.continueTo
  | .block body => .block (retarget body)
  | .branch test thenBody none => .branch test (retarget thenBody) none
  | .branch test thenBody (some elseBody) =>
    .branch test (retarget thenBody) (some (retarget elseBody))
  | .labeled label body => .labeled label (retargetStmt body)
  | statement => statement

def retarget : List Stmt → List Stmt
  | [] => []
  | first :: rest => retargetStmt first :: retarget rest

end

theorem retarget_eq_map (body : List Stmt) : retarget targets body = body.map (retargetStmt targets) := by
  induction body with
  | nil => rfl
  | cons first rest ih => rw [retarget, List.map_cons, ih]

theorem entered_retargetStmt (statement : Stmt) :
    entered (retargetStmt targets statement) = (entered statement).map (retargetStmt targets) := by
  cases statement with
  | block body => exact retarget_eq_map targets body
  | branch test thenBody elseBody =>
    cases elseBody with
    | none => simp [retargetStmt, entered, retarget_eq_map]
    | some elseBody => simp [retargetStmt, entered, retarget_eq_map]
  | breakJump label =>
    cases label with
    | none => cases goal : targets.breakTo <;> simp [retargetStmt, entered, goal]
    | some label => rfl
  | continueJump label => cases label <;> rfl
  | _ => rfl

variable {targets}

/-- What becomes a goto neither owned jumps nor named a label. -/
theorem head_retargetStmt (statement : Stmt) :
    bindsJumps (retargetStmt targets statement).kind = bindsJumps statement.kind ∧
      (retargetStmt targets statement).ownNamedJump = statement.ownNamedJump := by
  cases statement with
  | branch test thenBody elseBody => cases elseBody <;> exact ⟨rfl, rfl⟩
  | breakJump label =>
    cases label with
    | none =>
      cases goal : targets.breakTo with
      | none => simp only [retargetStmt, goal, and_self]
      | some target => simp only [retargetStmt, goal, Stmt.kind, bindsJumps, Stmt.ownNamedJump, and_self]
    | some label => exact ⟨rfl, rfl⟩
  | continueJump label => cases label <;> exact ⟨rfl, rfl⟩
  | _ => exact ⟨rfl, rfl⟩

theorem retargetStmt_of_binds {statement : Stmt} (binds : bindsJumps statement.kind = true) :
    retargetStmt targets statement = statement := by
  cases statement with
  | whileLoop | doLoop | forLoop | switch | function => rfl
  | _ => cases binds

theorem entered_of_binds {statement : Stmt} (opens : bindsJumps statement.kind = false) :
    entered statement = statement.children := by
  cases statement with
  | whileLoop | doLoop | forLoop | switch | function => cases opens
  | _ => rfl

/-- Retargeting does not touch the jumps with labels. -/
theorem named_retargetStmt (statement : Stmt) :
    (reachOf (retargetStmt targets statement)).filterMap Stmt.ownNamedJump =
      (reachOf statement).filterMap Stmt.ownNamedJump := by
  induction statement using enteredInduction with
  | step parent ih =>
    rw [reachOf_eq, reachOf_eq, List.filterMap_cons, List.filterMap_cons,
      (head_retargetStmt parent).2, entered_retargetStmt, reach, reach, List.filterMap_flatMap,
      List.filterMap_flatMap, List.flatMap_map, List.flatMap_congr ih]

theorem namedInReach_retarget (body : List Stmt) :
    namedInReach (retarget targets body) = namedInReach body := by
  rw [namedInReach, namedInReach, ← List.head?_filterMap, ← List.head?_filterMap, retarget_eq_map,
    reach, reach, List.filterMap_flatMap, List.filterMap_flatMap, List.flatMap_map,
    List.flatMap_congr fun statement _ => named_retargetStmt statement]

/-- Nothing is left within reach for a second pass, except breaks without a target. -/
theorem settled_retargetStmt (statement : Stmt) : ∀ node ∈ reachOf (retargetStmt targets statement),
    node ≠ .continueJump none ∧ (node = .breakJump none → targets.breakTo = none) := by
  induction statement using enteredInduction with
  | step parent ih =>
    intro node member
    rw [reachOf_eq, entered_retargetStmt, List.mem_cons, reach, List.mem_flatMap] at member
    rcases member with rfl | ⟨child, inside, below⟩
    · cases parent with
      | branch test thenBody elseBody => cases elseBody <;> exact ⟨nofun, nofun⟩
      | breakJump label =>
        cases label with
        | none =>
          cases goal : targets.breakTo with
          | none => simp [retargetStmt, goal]
          | some target => simp [retargetStmt, goal]
        | some label => exact ⟨nofun, nofun⟩
      | continueJump label => cases label <;> exact ⟨nofun, nofun⟩
      | _ => exact ⟨nofun, nofun⟩
    · rcases List.mem_map.1 inside with ⟨source, entered, rfl⟩
      exact ih source entered node below

theorem settled_retarget (body : List Stmt) : ∀ node ∈ reach (retarget targets body),
    node ≠ .continueJump none ∧ (node = .breakJump none → targets.breakTo = none) := by
  intro node member
  rw [retarget_eq_map, reach, List.flatMap_map] at member
  rcases List.mem_flatMap.1 member with ⟨statement, _, below⟩
  exact settled_retargetStmt statement node below

/-- Statements that own the jumps inside them are the same before and after. -/
def Untouched (before after : Stmt) : Prop :=
  bindsJumps before.kind = true ∨ bindsJumps after.kind = true → after = before

theorem forall₂_flatMap {α β : Type} {relation : β → β → Prop} {f g : α → List β} {items : List α}
    (each : ∀ item ∈ items, List.Forall₂ relation (f item) (g item)) :
    List.Forall₂ relation (items.flatMap f) (items.flatMap g) := by
  have same : List.Forall₂ (fun item item' => item' = item ∧ item ∈ items) items items :=
    List.forall₂_same.2 fun item member => ⟨rfl, member⟩
  refine List.rel_flatMap same ?_
  rintro item _ ⟨rfl, member⟩
  exact each _ member

theorem untouched_retargetStmt (statement : Stmt) :
    List.Forall₂ Untouched statement.nodes (retargetStmt targets statement).nodes := by
  induction statement using enteredInduction with
  | step parent ih =>
    cases binds : bindsJumps parent.kind with
    | true =>
      rw [retargetStmt_of_binds binds]
      exact List.forall₂_same.2 fun node _ _ => rfl
    | false =>
      have binds' := (@head_retargetStmt targets parent).1.trans binds
      rw [Stmt.nodes_eq, Stmt.nodes_eq, ← entered_of_binds binds, ← entered_of_binds binds',
        entered_retargetStmt, List.flatMap_map]
      refine .cons (fun either => ?_) (forall₂_flatMap ih)
      rw [binds, binds'] at either
      simp at either

theorem untouched_retarget (body : List Stmt) :
    List.Forall₂ Untouched (nodes body) (nodes (retarget targets body)) := by
  rw [retarget_eq_map, nodes, nodes, List.flatMap_map]
  exact forall₂_flatMap fun statement _ => untouched_retargetStmt statement

end Retarget

section Redirect

/-- The value, unless there is a jump with a label. -/
def unlessNamed {α : Type} (jump : Option (Kind × String)) (value : α) : Except FlattenError α :=
  match jump with
  | some (keyword, label) => .error (.namedJump keyword label)
  | none => .ok value

theorem namedInReach_append (front back : List Stmt) :
    namedInReach (front ++ back) = (namedInReach front).or (namedInReach back) := by
  rw [namedInReach, reach, List.flatMap_append, List.findSome?_append]
  rfl

theorem namedInReach_singleton (statement : Stmt) : namedInReach [statement] =
    statement.ownNamedJump.or (namedInReach (entered statement)) := by
  rw [namedInReach, reach, List.flatMap_singleton, reachOf_eq, List.findSome?_cons]
  cases statement.ownNamedJump <;> rfl

variable {targets : LoopTargets}

theorem redirect_of_each {body : List Stmt}
    (each : ∀ statement ∈ body, redirectStmt targets statement =
      unlessNamed (namedInReach [statement]) (retargetStmt targets statement)) :
    redirect targets body = unlessNamed (namedInReach body) (retarget targets body) := by
  induction body with
  | nil => rfl
  | cons first rest ih =>
    have later := ih fun statement member => each statement (List.mem_cons_of_mem _ member)
    have split : namedInReach (first :: rest) = (namedInReach [first]).or (namedInReach rest) :=
      namedInReach_append [first] rest
    rw [redirect, each first (List.mem_cons_self ..), later, split]
    cases namedInReach [first] with
    | some jump => rfl
    | none => cases namedInReach rest <;> rfl

theorem redirectStmt_eq (statement : Stmt) : redirectStmt targets statement =
    unlessNamed (namedInReach [statement]) (retargetStmt targets statement) := by
  induction statement using enteredInduction with
  | step parent ih =>
    rw [namedInReach_singleton]
    cases parent with
    | block body =>
      have whole : redirect targets body = _ := redirect_of_each ih
      rw [redirectStmt, whole, entered]
      cases namedInReach body <;> rfl
    | branch test thenBody elseBody =>
      have whole := redirect_of_each fun child member => ih child (List.mem_append_left _ member)
      cases elseBody with
      | none =>
        rw [redirectStmt, whole, entered, Option.getD_none, List.append_nil]
        cases namedInReach thenBody <;> rfl
      | some elseBody =>
        have otherwise := redirect_of_each fun child member =>
          ih child (List.mem_append_right _ member)
        rw [Option.getD_some] at otherwise
        rw [redirectStmt, whole, otherwise, entered, Option.getD_some, namedInReach_append]
        cases namedInReach thenBody with
        | some jump => rfl
        | none => cases namedInReach elseBody <;> rfl
    | labeled label body =>
      rw [redirectStmt, ih body (List.mem_singleton_self _), entered]
      cases namedInReach [body] <;> rfl
    | breakJump label =>
      cases label with
      | none => cases goal : targets.breakTo <;> simp [redirectStmt, retargetStmt, goal] <;> rfl
      | some label => rfl
    | continueJump label => cases label <;> rfl
    | _ => rfl

theorem redirect_eq (targets : LoopTargets) (body : List Stmt) :
    redirect targets body = unlessNamed (namedInReach body) (retarget targets body) :=
  redirect_of_each fun statement _ => redirectStmt_eq statement

end Redirect

section Twice

variable {first second : LoopTargets}

/-- The first targets, with the second one for breaks where the first one is missing. -/
def LoopTargets.orElse (first second : LoopTargets) : LoopTargets :=
  ⟨first.breakTo.or second.breakTo, first.continueTo⟩

theorem retarget_of_each {body : List Stmt}
    (each : ∀ statement ∈ body, retargetStmt second (retargetStmt first statement) =
      retargetStmt (first.orElse second) statement) :
    retarget second (retarget first body) = retarget (first.orElse second) body := by
  rw [retarget_eq_map, retarget_eq_map, retarget_eq_map, List.map_map]
  exact List.map_congr_left each

theorem retargetStmt_retargetStmt (statement : Stmt) :
    retargetStmt second (retargetStmt first statement) =
      retargetStmt (first.orElse second) statement := by
  induction statement using enteredInduction with
  | step parent ih =>
    cases parent with
    | block body => exact congrArg Stmt.block (retarget_of_each ih)
    | branch test thenBody elseBody =>
      have whole := retarget_of_each fun child member => ih child (List.mem_append_left _ member)
      cases elseBody with
      | none => rw [retargetStmt, retargetStmt, retargetStmt, whole]
      | some elseBody =>
        have otherwise : retarget second (retarget first elseBody) = _ :=
          retarget_of_each fun child member => ih child (List.mem_append_right _ member)
        rw [retargetStmt, retargetStmt, retargetStmt, whole, otherwise]
    | labeled label body =>
      rw [retargetStmt, retargetStmt, retargetStmt, ih body (List.mem_singleton_self _)]
    | breakJump label =>
      cases label with
      | none => cases goal : first.breakTo <;> simp [retargetStmt, goal, LoopTargets.orElse]
      | some label => rfl
    | continueJump label => cases label <;> rfl
    | _ => rfl

theorem retarget_retarget (body : List Stmt) :
    retarget second (retarget first body) = retarget (first.orElse second) body :=
  retarget_of_each fun statement _ => retargetStmt_retargetStmt statement

/-- A second pass finds no jump with a label where the first one found none. -/
theorem redirect_bind (body : List Stmt) :
    (redirect first body >>= redirect second) = redirect (first.orElse second) body := by
  rw [redirect_eq, redirect_eq]
  cases named : namedInReach body with
  | some jump => rfl
  | none =>
    change redirect second (retarget first body) = .ok (retarget (first.orElse second) body)
    rw [redirect_eq, namedInReach_retarget, named, retarget_retarget]
    rfl

end Twice

/-- Redirecting a body twice is redirecting it once, to the second target of breaks if there is no
first one. So the same targets do nothing a second time, and no targets do anything after a pass
that has one for breaks. A pass fails with the first jump within reach that has a label; without
one it keeps the labels, in order, and every loop, switch and function inside the body, and no jump
is left within reach except breaks without a target. -/
theorem redirect_redirect (first second : LoopTargets) (body : List Stmt) :
    (redirect first body >>= redirect second) =
        redirect ⟨first.breakTo.or second.breakTo, first.continueTo⟩ body ∧
      (redirect first body >>= redirect first) = redirect first body ∧
      (first.breakTo.isSome = true → (redirect first body >>= redirect second) = redirect first body) ∧
      match namedInReach body with
      | some (keyword, label) => redirect first body = .error (.namedJump keyword label)
      | none => ∃ inner, redirect first body = .ok inner ∧ labels inner = labels body ∧
          List.Forall₂ Untouched (nodes body) (nodes inner) ∧
          ∀ node ∈ reach inner,
            node ≠ .continueJump none ∧ (node = .breakJump none → first.breakTo = none) := by
  refine ⟨redirect_bind body, ?_, fun given => ?_, ?_⟩
  · rw [redirect_bind, LoopTargets.orElse, Option.or_self]
  · rcases Option.isSome_iff_exists.1 given with ⟨target, goal⟩
    rw [redirect_bind, LoopTargets.orElse, goal, Option.some_or, ← goal]
  · have once := redirect_eq first body
    cases named : namedInReach body with
    | some jump => rw [once, named]; rfl
    | none =>
      rw [named] at once
      exact ⟨retarget first body, once, redirect_labels once, untouched_retarget body,
        settled_retarget body⟩

/-- A break and a continue inside a block and a branch, and a break in an inner loop. -/
def mixedJumps : List Stmt :=
  [.block [.breakJump none], .whileLoop (.identifier "more") [.breakJump none],
    .labeled "L" (.ifThen (.identifier "skip") [.continueJump none])]

theorem redirect_redirect_mixedJumps :
    (redirect ⟨none, "next"⟩ mixedJumps >>= redirect ⟨some "out", "elsewhere"⟩) =
        .ok [.block [.goto "out"], .whileLoop (.identifier "more") [.breakJump none],
          .labeled "L" (.ifThen (.identifier "skip") [.goto "next"])] ∧
      (some "out").isSome = true ∧
      (redirect ⟨some "out", "next"⟩ mixedJumps >>= redirect ⟨some "away", "elsewhere"⟩) =
        redirect ⟨some "out", "next"⟩ mixedJumps :=
  ⟨(redirect_redirect ⟨none, "next"⟩ ⟨some "out", "elsewhere"⟩ mixedJumps).1, rfl,
    (redirect_redirect ⟨some "out", "next"⟩ ⟨some "away", "elsewhere"⟩ mixedJumps).2.2.1 rfl⟩

end Unnest.Flatten
