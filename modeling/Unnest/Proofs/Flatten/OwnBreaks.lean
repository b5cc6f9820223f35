import Unnest.Proofs.Flatten.OwnJumps
import Unnest.Proofs.Flatten.RefusedOfRun
import Unnest.Proofs.Flatten.Retargeted

/-! Whether a loop has breaks of its own. The search for one and the redirecting of jumps reach the
same statements, so a body without one is redirected alike wherever breaks go, and a body with one
is not. A `do` loop gives its breaks a target exactly when there is one to give it to. -/

namespace Unnest.Flatten
open Script

section Search

theorem entered_of_owner {statement : Stmt} (binds : bindsJumps statement.kind = true) :
    entered statement = [] := by
  cases statement with
  | whileLoop | doLoop | forLoop | switch | function => rfl
  | _ => cases binds

/-- The search for a break looks where redirecting does. -/
theorem breaksOut_iff (statement : Stmt) :
    breaksOut statement = true ↔ ∃ node ∈ reachOf statement, node.kind = .breakJump := by
  induction statement using enteredInduction with
  | step parent ih =>
    rw [breaksOut_eq, reachOf_eq]
    cases binds : bindsJumps parent.kind with
    | true =>
      have other : parent.kind ≠ .breakJump := by
        intro same
        rw [same] at binds
        cases binds
      simp [entered_of_owner binds, reach, other]
    | false =>
      have below : parent.children.any breaksOut = true ↔
          ∃ node ∈ reach (entered parent), node.kind = .breakJump := by
        rw [← entered_of_binds binds, List.any_eq_true]
        constructor
        · rintro ⟨child, member, breaks⟩
          obtain ⟨node, inChild, isBreak⟩ := (ih child member).1 breaks
          exact ⟨node, List.mem_flatMap.2 ⟨child, member, inChild⟩, isBreak⟩
        · rintro ⟨node, inBody, isBreak⟩
          obtain ⟨child, member, inChild⟩ := List.mem_flatMap.1 inBody
          exact ⟨child, member, (ih child member).2 ⟨node, inChild, isBreak⟩⟩
      simp [below]

theorem containsBreak_iff (body : List Stmt) :
    containsBreak body = true ↔ ∃ node ∈ reach body, node.kind = .breakJump := by
  rw [containsBreak, List.any_eq_true]
  constructor
  · rintro ⟨statement, member, breaks⟩
    obtain ⟨node, inside, isBreak⟩ := (breaksOut_iff statement).1 breaks
    exact ⟨node, List.mem_flatMap.2 ⟨statement, member, inside⟩, isBreak⟩
  · rintro ⟨node, inBody, isBreak⟩
    obtain ⟨statement, member, inside⟩ := List.mem_flatMap.1 inBody
    exact ⟨statement, member, (breaksOut_iff statement).2 ⟨node, inside, isBreak⟩⟩

/-- Where no jump within reach has a label, the only break to be found is the plain one. -/
theorem containsBreak_of_unnamed {body : List Stmt} (unnamed : namedInReach body = none) :
    containsBreak body = true ↔ .breakJump none ∈ reach body := by
  rw [containsBreak_iff]
  constructor
  · rintro ⟨node, inBody, isBreak⟩
    have plain : node.ownNamedJump = none := List.findSome?_eq_none_iff.1 unnamed node inBody
    cases node with
    | breakJump label =>
      cases label with
      | none => exact inBody
      | some label => cases plain
    | _ => cases isBreak
  · exact fun inBody => ⟨_, inBody, rfl⟩

end Search

section Retarget

variable {body : List Stmt}

/-- A break stays a break exactly when there is no target for it. -/
theorem break_mem_reachOf_retargetStmt (targets : LoopTargets) (statement : Stmt) :
    .breakJump none ∈ reachOf (retargetStmt targets statement) ↔
      targets.breakTo = none ∧ .breakJump none ∈ reachOf statement := by
  induction statement using enteredInduction with
  | step parent ih =>
    have here : .breakJump none = retargetStmt targets parent ↔
        targets.breakTo = none ∧ .breakJump none = parent := by
      cases parent with
      | branch test thenBody elseBody => cases elseBody <;> simp [retargetStmt]
      | breakJump label =>
        cases label with
        | none => cases goal : targets.breakTo <;> simp [retargetStmt, goal]
        | some label => simp [retargetStmt]
      | continueJump label => cases label <;> simp [retargetStmt]
      | _ => simp [retargetStmt]
    have below : .breakJump none ∈ reach ((entered parent).map (retargetStmt targets)) ↔
        targets.breakTo = none ∧ .breakJump none ∈ reach (entered parent) := by
      rw [reach, List.flatMap_map, List.mem_flatMap, reach, List.mem_flatMap]
      constructor
      · rintro ⟨child, member, inside⟩
        obtain ⟨nowhere, before⟩ := (ih child member).1 inside
        exact ⟨nowhere, child, member, before⟩
      · rintro ⟨nowhere, child, member, before⟩
        exact ⟨child, member, (ih child member).2 ⟨nowhere, before⟩⟩
    rw [reachOf_eq, reachOf_eq, List.mem_cons, List.mem_cons, entered_retargetStmt, here, below,
      ← and_or_left]

/-- After retargeting there is a break only if there was one and it had nowhere to go. -/
theorem containsBreak_retarget (unnamed : namedInReach body = none) (targets : LoopTargets) :
    containsBreak (retarget targets body) = true ↔
      targets.breakTo = none ∧ containsBreak body = true := by
  have still : namedInReach (retarget targets body) = none :=
    (namedInReach_retarget body).trans unnamed
  rw [containsBreak_of_unnamed still, containsBreak_of_unnamed unnamed, retarget_eq_map, reach,
    List.flatMap_map, List.mem_flatMap, reach, List.mem_flatMap]
  constructor
  · rintro ⟨statement, member, inside⟩
    obtain ⟨nowhere, before⟩ := (break_mem_reachOf_retargetStmt targets statement).1 inside
    exact ⟨nowhere, statement, member, before⟩
  · rintro ⟨nowhere, statement, member, before⟩
    exact ⟨statement, member,
      (break_mem_reachOf_retargetStmt targets statement).2 ⟨nowhere, before⟩⟩

variable {continueTo : String} (first second : Option String)

theorem retarget_of_unbroken {body : List Stmt} (each : ∀ statement ∈ body,
      retargetStmt ⟨first, continueTo⟩ statement = retargetStmt ⟨second, continueTo⟩ statement) :
    retarget ⟨first, continueTo⟩ body = retarget ⟨second, continueTo⟩ body := by
  rw [retarget_eq_map, retarget_eq_map]
  exact List.map_congr_left each

/-- Without a break to be found it does not matter where breaks go. -/
theorem retargetStmt_of_unbroken {statement : Stmt} (unbroken : breaksOut statement = false) :
    retargetStmt ⟨first, continueTo⟩ statement = retargetStmt ⟨second, continueTo⟩ statement := by
  induction statement using enteredInduction with
  | step parent ih =>
    cases binds : bindsJumps parent.kind with
    | true => rw [retargetStmt_of_binds binds, retargetStmt_of_binds binds]
    | false =>
      rw [breaksOut_eq, binds, if_neg Bool.false_ne_true, Bool.or_eq_false_iff,
        ← entered_of_binds binds, List.any_eq_false] at unbroken
      obtain ⟨other, below⟩ := unbroken
      have each : ∀ child ∈ entered parent, retargetStmt ⟨first, continueTo⟩ child =
          retargetStmt ⟨second, continueTo⟩ child :=
        fun child member => ih child member (Bool.eq_false_iff.2 (below child member))
      cases parent with
      | block body => exact congrArg Stmt.block (retarget_of_unbroken first second each)
      | branch test thenBody elseBody =>
        have whole := retarget_of_unbroken first second fun child member =>
          each child (List.mem_append_left _ member)
        cases elseBody with
        | none => rw [retargetStmt, retargetStmt, whole]
        | some elseBody =>
          have otherwise := retarget_of_unbroken first second fun child member =>
            each child (List.mem_append_right _ member)
          rw [Option.getD_some] at otherwise
          rw [retargetStmt, retargetStmt, whole, otherwise]
      | labeled label body =>
        rw [retargetStmt, retargetStmt, each body (List.mem_singleton_self _)]
      | breakJump label => cases other
      | continueJump label => cases label <;> rfl
      | _ => rfl

end Retarget

section Redirect

variable {body : List Stmt}

/-- A body has no break of its own exactly when it is redirected alike wherever breaks go. -/
theorem containsBreak_eq_false_iff (unnamed : namedInReach body = none) (continueTo : String) :
    containsBreak body = false ↔ ∀ first second : Option String,
      redirect ⟨first, continueTo⟩ body = redirect ⟨second, continueTo⟩ body := by
  have total (breakTo : Option String) : redirect ⟨breakTo, continueTo⟩ body =
      .ok (retarget ⟨breakTo, continueTo⟩ body) := by
    rw [redirect_eq, unnamed]
    rfl
  constructor
  · intro unbroken first second
    rw [containsBreak, List.any_eq_false] at unbroken
    rw [total, total, retarget_of_unbroken first second fun statement member =>
      retargetStmt_of_unbroken first second (Bool.eq_false_iff.2 (unbroken statement member))]
  · intro alike
    -- with a target no break is left, and without one every break is
    have same := alike none (some continueTo)
    rw [total, total, Except.ok.injEq] at same
    by_contra broken
    have left := (containsBreak_retarget unnamed ⟨none, continueTo⟩).2
      ⟨rfl, Bool.not_eq_false _ ▸ broken⟩
    rw [same] at left
    cases ((containsBreak_retarget unnamed _).1 left).1

/-- The breaks of a `do` loop get a target exactly when there is one to give a target to. -/
theorem breakTo_of_planLoop {condition : Expr} {loopName fallThrough : String}
    {following : Continuation Stmt} {run later : Run} {plan : LoopPlan}
    (planned : planLoop (.doHead condition) body loopName following fallThrough run =
      .ok plan later) : plan.targets.breakTo = none ↔ containsBreak body = false := by
  obtain ⟨conditionLabel, middle, minted, planned⟩ := RunM.bind_ok planned
  cases breaks : containsBreak body with
  | true =>
    simp only [breaks, if_true] at planned
    obtain ⟨after, chosen, labeled, planned⟩ := RunM.bind_ok planned
    obtain ⟨_, reported, event, planned⟩ := RunM.bind_ok planned
    cases planned
    simp
  | false =>
    simp only [breaks, Bool.false_eq_true, if_false] at planned
    obtain ⟨_, reported, event, planned⟩ := RunM.bind_ok planned
    cases planned
    simp

end Redirect

/-- Take a body whose jumps can be redirected. Whatever the target of its continues, it has no break
of its own exactly when it does not matter where breaks go; it can be redirected to any targets, and
no break is left where breaks have one. A `do` loop around the body, in any state of a run, leaves
its breaks without a target exactly when there is none. So either way no break is left, and without
a target its body comes out as it would with one. -/
theorem breaks_of_redirect {targets : LoopTargets} {body inner : List Stmt}
    (success : redirect targets body = .ok inner) :
    (∀ continueTo, containsBreak body = false ↔ ∀ first second : Option String,
        redirect ⟨first, continueTo⟩ body = redirect ⟨second, continueTo⟩ body) ∧
      (∀ targets : LoopTargets, ∃ result, redirect targets body = .ok result ∧
        (targets.breakTo.isSome = true → containsBreak result = false)) ∧
      ∀ condition loopName following fallThrough run, ∃ plan later result,
        planLoop (.doHead condition) body loopName following fallThrough run = .ok plan later ∧
          (plan.targets.breakTo = none ↔ containsBreak body = false) ∧
          redirect plan.targets body = .ok result ∧ containsBreak result = false ∧
          (plan.targets.breakTo = none → ∀ breakTo,
            redirect ⟨breakTo, plan.targets.continueTo⟩ body = .ok result) := by
  have unnamed : namedInReach body = none := by
    rw [redirect_eq] at success
    cases named : namedInReach body with
    | none => rfl
    | some jump =>
      rw [named] at success
      cases success
  have total (targets : LoopTargets) : redirect targets body = .ok (retarget targets body) := by
    rw [redirect_eq, unnamed]
    rfl
  have alike := containsBreak_eq_false_iff unnamed
  have left (targets : LoopTargets) (settled : targets.breakTo = none → containsBreak body = false) :
      containsBreak (retarget targets body) = false := by
    by_contra broken
    obtain ⟨nowhere, breaks⟩ :=
      (containsBreak_retarget unnamed targets).1 (Bool.not_eq_false _ ▸ broken)
    rw [settled nowhere] at breaks
    cases breaks
  refine ⟨alike, fun targets => ⟨_, total targets, fun given => left targets fun nowhere => ?_⟩, ?_⟩
  · rw [nowhere] at given
    cases given
  · intro condition loopName following fallThrough run
    obtain ⟨plan, later, planned⟩ :=
      (infallible_planLoop (.doHead condition) body loopName following fallThrough).succeeds run
    have exact := breakTo_of_planLoop planned
    refine ⟨plan, later, _, planned, exact, total plan.targets, left plan.targets exact.1, ?_⟩
    intro nowhere breakTo
    rw [(alike plan.targets.continueTo).1 (exact.1 nowhere) breakTo plan.targets.breakTo]
    exact total plan.targets

/-- A break in a branch belongs to the loop around the body, one in an inner loop does not. -/
theorem breaks_of_redirect_mixedJumps :
    redirect ⟨none, "next"⟩ mixedJumps = .ok [.block [.breakJump none],
        .whileLoop (.identifier "more") [.breakJump none],
        .labeled "L" (.ifThen (.identifier "skip") [.goto "next"])] ∧
      (some "out").isSome = true ∧
      ∃ result, redirect ⟨some "out", "next"⟩ mixedJumps = .ok result ∧
        containsBreak result = false := by
  have success : redirect ⟨none, "next"⟩ mixedJumps = .ok _ := rfl
  obtain ⟨result, redirects, unbroken⟩ := (breaks_of_redirect success).2.1 ⟨some "out", "next"⟩
  exact ⟨success, rfl, result, redirects, unbroken rfl⟩

end Unnest.Flatten
