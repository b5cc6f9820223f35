import Unnest.Proofs.Flatten.Flattened
import Unnest.Proofs.Flatten.Lockstep
import Unnest.Proofs.Flatten.PlacedOfRun
import Unnest.Proofs.Flatten.Stages

/-! Flattening code in other words gives the blocks in other words: the engine never looks at
the words themselves. -/

namespace Unnest.Flatten
open Script

/-- The statements come out in other words. -/
def Commuting (words : Rewording) (code : Continuation Stmt) : Prop :=
  ∀ fallThrough spot, Commutes words (reword words) (place code fallThrough spot)
    (place (code.map (Stmt.reword words)) (words.name fallThrough) (spot.reword words))

section Parts

variable {words : Rewording}

theorem reword_append (front back : List Stmt) :
    reword words (front ++ back) = reword words front ++ reword words back := by
  rw [reword_eq_map, List.map_append, ← reword_eq_map, ← reword_eq_map]

theorem Commuting.ofBlock {body : List Stmt} (placed : Commuting words (.ofBlock body))
    (label : String) : Commutes words (reword words) (place (.ofBlock body) label .inside)
      (place (.ofBlock (reword words body)) (words.name label) .inside) := by
  rw [reword_eq_map, Continuation.ofBlock_map]
  exact placed label .inside

theorem Commuting.push {rest : Continuation Stmt} {frame : Frame Stmt}
    (placed : Commuting words (rest.push frame)) (fallThrough : String) (spot : Spot) :
    Commutes words (reword words) (place (rest.push frame) fallThrough spot)
      (place ((rest.map (Stmt.reword words)).push (frame.map (Stmt.reword words)))
        (words.name fallThrough) (spot.reword words)) := by
  rw [Continuation.push_map]
  exact placed fallThrough spot

theorem commutes_placeElse {elseBody : Option (List Stmt)} (label : String)
    (inElse : ∀ body, elseBody = some body → Commuting words (.ofBlock body)) :
    Commutes words (Option.map (reword words)) (placeElse place elseBody label)
      (placeElse place (elseBody.map (reword words)) (words.name label)) := by
  cases elseBody with
  | none => exact .pure rfl
  | some elseBody => exact ((inElse elseBody rfl).ofBlock label).map fun _ => rfl

variable (apart : Function.Injective words.name)
include apart

theorem commutes_placeBehind (after : Successor) (placed : List Stmt)
    {following : Continuation Stmt} (fallThrough : String) (behind : Commuting words following) :
    Commutes words (reword words) (placeBehind place after placed following fallThrough)
      (placeBehind place (after.reword words) (reword words placed)
        (following.map (Stmt.reword words)) (words.name fallThrough)) := by
  have further : Commutes words (reword words)
      (do return placed ++ (← place following fallThrough (.after placed)))
      (do return reword words placed ++ (← place (following.map (Stmt.reword words))
        (words.name fallThrough) (.after (reword words placed)))) := by
    rw [Spot.after_reword]
    exact (behind _ _).bind fun others => .pure (reword_append _ _).symm
  cases after with
  | fresh name =>
    exact (commutes_enqueue apart ⟨following, name, fallThrough⟩).bind fun _ => .pure rfl
  | next name | fallThrough name => exact further

theorem commutes_placeBranch (test : Expr) {thenBody : List Stmt} {elseBody : Option (List Stmt)}
    {following : Continuation Stmt} (fallThrough : String)
    (inThen : Commuting words (.ofBlock thenBody))
    (inElse : ∀ body, elseBody = some body → Commuting words (.ofBlock body))
    (behind : Commuting words following) :
    Commutes words (reword words) (placeBranch place test thenBody elseBody following fallThrough)
      (placeBranch place (words.expression test) (reword words thenBody)
        (elseBody.map (reword words)) (following.map (Stmt.reword words))
        (words.name fallThrough)) := by
  refine (commutes_labelAfter following fallThrough).bind fun after =>
    (commutes_reportEvent _ _).bind fun _ => ?_
  rw [Successor.name_reword]
  refine (inThen.ofBlock after.name).bind fun thenFlat =>
    (commutes_placeElse after.name inElse).bind fun elseFlat => ?_
  rw [flatBranch_reword]
  exact commutes_placeBehind apart after _ fallThrough behind

theorem commutes_inlineLoop {head : LoopHead} {body : List Stmt} {following : Continuation Stmt}
    (loopName fallThrough : String)
    (inBody : ∀ targets inner, redirect targets body = .ok inner →
      Commuting words (.ofBlock inner)) :
    Commutes words (reword words) (inlineLoop place head body loopName following fallThrough)
      (inlineLoop place (head.reword words) (reword words body) (words.name loopName)
        (following.map (Stmt.reword words)) (words.name fallThrough)) := by
  refine (commutes_planLoop head body loopName following fallThrough).bind fun plan => ?_
  have redirected : redirect (plan.reword words).targets (reword words body) = _ :=
    redirect_reword plan.targets body
  rw [redirected]
  cases redirects : redirect plan.targets body with
  | error fault => exact .throw rfl
  | ok inner =>
    exact ((inBody plan.targets inner redirects).ofBlock plan.targets.continueTo).bind fun flat =>
      (commutes_keepAll apart plan.promises).bind fun _ => .pure (reword_append _ _).symm

theorem commutes_placeLoop (head : LoopHead) (body : List Stmt) (frame : Frame Stmt)
    (rest : Continuation Stmt) (fallThrough : String) (spot : Spot)
    (inBody : ∀ targets inner, redirect targets body = .ok inner →
      Commuting words (.ofBlock inner)) :
    Commutes words (reword words) (placeLoop place head body frame rest fallThrough spot)
      (placeLoop place (head.reword words) (reword words body) (frame.map (Stmt.reword words))
        (rest.map (Stmt.reword words)) (words.name fallThrough) (spot.reword words)) := by
  have split (init : List Stmt) : Commutes words (reword words)
      (do return init ++ (← splitBeforeLoop (head.resumption frame) rest fallThrough))
      (do return reword words init ++ (← splitBeforeLoop
        ((head.reword words).resumption (frame.map (Stmt.reword words)))
        (rest.map (Stmt.reword words)) (words.name fallThrough))) := by
    rw [LoopHead.resumption_reword]
    exact (commutes_splitBeforeLoop apart _ rest fallThrough).bind fun jump =>
      .pure (reword_append _ _).symm
  unfold placeLoop
  rw [LoopHead.labeledInit_reword, LoopHead.pendingInit_reword, Continuation.pushFollowing_map]
  cases head.labeledInit with
  | some kind => exact .throw rfl
  | none =>
    have start : (spot.reword words).reentry = spot.reentry.map words.name := rfl
    have resumed : (frame.map (Stmt.reword words)).afterInit = frame.afterInit := rfl
    rw [start, resumed]
    cases spot.reentry with
    | none => exact split _
    | some loopName =>
      cases head.pendingInit frame.afterInit with
      | cons first others => exact split _
      | nil => exact commutes_inlineLoop apart loopName fallThrough inBody

variable {code rest : Continuation Stmt} {frame : Frame Stmt} {current statement : Stmt}
  {isBound : String → Bool}

/-- What becomes of a statement is the same in other words, if that is so for lighter code. -/
theorem commutes_placeLabeled (met : code.At frame rest current)
    (arrival : arrive isBound current = .runs statement)
    (labeled : statement.containsLabels = true)
    (lighter : ∀ other : Continuation Stmt, other.weight < code.weight → Commuting words other)
    (fallThrough : String) (spot : Spot) :
    Commutes words (reword words) (placeLabeled place statement frame rest fallThrough spot)
      (placeLabeled place (statement.reword words) (frame.map (Stmt.reword words))
        (rest.map (Stmt.reword words)) (words.name fallThrough) (spot.reword words)) := by
  have following := Continuation.pushFollowing_map (Stmt.reword words) rest frame
  have behind := lighter _ (weight_following_lt met)
  have inLoop {head : LoopHead} {body : List Stmt} (isLoop : loopOf statement = some (head, body)) :=
    commutes_placeLoop apart head body frame rest fallThrough spot
      fun targets inner redirects => lighter (.ofBlock inner) (weight_ofBlock_lt met arrival
        (redirect_weight targets body inner redirects ▸ weight_of_loopOf isLoop))
  cases statement with
  | block body =>
    have inside := lighter ((rest.pushFollowing frame).push ⟨body, 0, false⟩)
      (weight_push_runs_lt met arrival (Nat.le_of_eq (Stmt.weight_children (.block body)).symm))
    rw [Stmt.reword, placeLabeled, placeLabeled, following, reword_eq_map]
    exact inside.push fallThrough spot
  | branch test thenBody elseBody =>
    have inThen := lighter (.ofBlock thenBody) (weight_ofBlock_lt met arrival weight_then_le)
    have inElse : ∀ body, elseBody = some body → Commuting words (.ofBlock body) := by
      rintro body rfl
      exact lighter (.ofBlock body) (weight_ofBlock_lt met arrival weight_else_le)
    have branched := commutes_placeBranch apart test fallThrough inThen inElse behind
    rw [← following] at branched
    cases elseBody <;> exact branched
  | switch discriminant cases =>
    refine .throw ?_
    rw [Stmt.firstLabel_reword]
    obtain ⟨label, member⟩ := Stmt.containsLabels_iff.1 labeled
    obtain ⟨first, others, found⟩ := List.exists_cons_of_ne_nil (List.ne_nil_of_mem member)
    rw [Stmt.firstLabel_eq_head, found]
    rfl
  | whileLoop | doLoop | forLoop => exact inLoop rfl
  | function name params body => simp [Stmt.containsLabels_eq, Stmt.ownLabel, Stmt.children] at labeled
  | labeled label body => exact .throw rfl
  | _ => exact .throw rfl

theorem commutes_placeStatement (met : code.At frame rest current)
    (arrival : arrive isBound current = .runs statement)
    (lighter : ∀ other : Continuation Stmt, other.weight < code.weight → Commuting words other)
    (fallThrough : String) (spot : Spot) :
    Commutes words (reword words) (placeStatement place statement frame rest fallThrough spot)
      (placeStatement place (statement.reword words) (frame.map (Stmt.reword words))
        (rest.map (Stmt.reword words)) (words.name fallThrough) (spot.reword words)) := by
  unfold placeStatement
  rw [Stmt.containsLabels_reword, Stmt.namedJump_reword, Continuation.pushFollowing_map]
  by_cases labeled : statement.containsLabels = true
  · simp only [labeled, if_true]
    exact commutes_placeLabeled apart met arrival labeled lighter fallThrough spot
  · simp only [labeled, if_false, Bool.false_eq_true]
    cases statement.namedJump with
    | some jump => exact .throw rfl
    | none =>
      have spotted := Spot.after_reword words [statement]
      have behind := lighter _ (weight_following_lt met) fallThrough (.after [statement])
      rw [← spotted] at behind
      exact behind.bind fun others => .pure rfl

theorem commuting (code : Continuation Stmt) : Commuting words code := by
  intro fallThrough spot
  cases popped : code.pop with
  | none =>
    have popped' : (code.map (Stmt.reword words)).pop = none := by
      rw [Continuation.pop_map, popped, Option.map_none]
    rw [place_of_pop_none popped, place_of_pop_none popped']
    exact .pure (spot.jump_reword fallThrough)
  | some taken =>
    obtain ⟨frame, rest⟩ := taken
    cases here : frame.current with
    | none =>
      have popped' : (code.map (Stmt.reword words)).pop =
          some (frame.map (Stmt.reword words), rest.map (Stmt.reword words)) := by
        rw [Continuation.pop_map, popped, Option.map_some]
      have here' : (frame.map (Stmt.reword words)).current = none := by
        rw [Frame.current_map, here, Option.map_none]
      rw [place_of_current_none popped here, place_of_current_none popped' here']
      exact commuting rest fallThrough spot
    | some current =>
      have met : code.At frame rest current := ⟨popped, here⟩
      rw [place_of_at met, place_of_at (met.map (Stmt.reword words))]
      refine .get fun run run' alike => ?_
      rw [arrive_reword (alike.isBound apart), Continuation.push_map,
        Continuation.pushFollowing_map]
      cases arrival : arrive run.isBound current with
      | opens label =>
        exact (commutes_reportEvent _ _).bind fun _ =>
          (commutes_enqueue apart ⟨rest.push frame, label, fallThrough⟩).bind fun _ =>
            .pure (spot.jump_reword label)
      | unwraps inner =>
        have inside := commuting
          ((rest.pushFollowing frame).push ⟨[inner], 0, frame.afterInit⟩)
        exact inside.push fallThrough spot
      | runs statement =>
        exact commutes_placeStatement apart met arrival
          (fun other lighter => commuting other) fallThrough spot
termination_by code.weight
decreasing_by
  · have popWeight := weight_of_pop popped
    unfold Frame.weight at popWeight
    omega
  · exact weight_push_unwraps_lt met arrival
  · exact lighter

theorem commutes_makeBlock (block : Pending) :
    Commutes words (LabeledBlock.reword words) (makeBlock block) (makeBlock (block.reword words)) :=
  (commutes_reportEvent _ _).bind fun _ =>
    (commuting apart block.continuation block.fallThrough (.blockStart block.name)).bind
      fun _ => .get fun _ _ _ => (commutes_reportEvent _ _).bind fun _ => .pure rfl

theorem commutes_makeBlocks (limit : Nat) :
    Commutes words (List.map (LabeledBlock.reword words)) (makeBlocks limit) (makeBlocks limit) := by
  induction limit with
  | zero => exact .pure rfl
  | succ limit ih =>
    refine commutes_takeNext.bind fun block => ?_
    cases block with
    | none => exact .pure rfl
    | some block =>
      exact (commutes_makeBlock apart block).bind fun made => ih.bind fun others => .pure rfl

theorem commutes_blocksOf {options options' : Options}
    (leaves : words.name options.exitLabel = options'.exitLabel) (body : List Stmt) :
    Commutes words (List.map (LabeledBlock.reword words)) (blocksOf options body)
      (blocksOf options' (reword words body)) := by
  refine commutes_freshName.bind fun entry => ?_
  rw [reword_eq_map, List.isEmpty_map, ← reword_eq_map]
  split
  · refine .pure ?_
    rw [← leaves]
    rfl
  · have scheduled := commutes_enqueue apart ⟨.ofBlock body, entry, options.exitLabel⟩
    rw [Pending.reword, ← Continuation.ofBlock_map, leaves, ← reword_eq_map] at scheduled
    refine scheduled.bind fun _ => ?_
    have limit : blockLimit (reword words body) = blockLimit body := by
      rw [blockLimit, blockLimit, weight_reword]
    rw [limit]
    exact (commutes_makeBlocks apart _).bind fun blocks => .get fun _ _ _ =>
      (commutes_reportEvent _ _).bind fun _ => .pure rfl

/-- The checks before a run only compare labels. -/
theorem checkLabels_reword {options options' : Options} (seen : List String) {declared : List String}
    (unreserved : ∀ label ∈ declared, options.isReserved label = false)
    (unreserved' : ∀ label ∈ declared, options'.isReserved (words.name label) = false) :
    checkLabels options' (seen.map words.name) (declared.map words.name) =
      (checkLabels options seen declared).mapError (FlattenError.reword words) := by
  induction declared generalizing seen with
  | nil => rfl
  | cons label rest ih =>
    have here := unreserved label (List.mem_cons_self ..)
    have here' := unreserved' label (List.mem_cons_self ..)
    have repeated : (seen.map words.name).contains (words.name label) = seen.contains label := by
      rw [Bool.eq_iff_iff, List.contains_iff_mem, List.contains_iff_mem, List.mem_map_of_injective apart]
    rw [List.map_cons, checkLabels, checkLabels, here, here', repeated]
    simp only [Bool.false_eq_true, if_false]
    split
    · rfl
    · exact ih (label :: seen) (fun other member => unreserved other (List.mem_cons_of_mem _ member))
        (fun other member => unreserved' other (List.mem_cons_of_mem _ member))

theorem runFrom_reword {options options' : Options} (journal journal' : Journal)
    (leaves : words.name options.exitLabel = options'.exitLabel)
    (minting : ∀ index, words.name (Mint.nameAt options.anonymousPrefix index) =
      Mint.nameAt options'.anonymousPrefix index) (body : List Stmt) :
    Echoes words (List.map (LabeledBlock.reword words)) (runFrom journal options body)
      (runFrom journal' options' (reword words body)) :=
  commutes_blocksOf apart leaves body _ _ ⟨rfl, rfl, rfl, minting⟩

/-- If the checks before the run give the same answer, so does the run: the blocks in other
words, or a failure for the same reason. -/
theorem flatten_reword {options options' : Options} {body : List Stmt}
    (leaves : words.name options.exitLabel = options'.exitLabel)
    (minting : ∀ index, words.name (Mint.nameAt options.anonymousPrefix index) =
      Mint.nameAt options'.anonymousPrefix index)
    (checked : precheck options' (reword words body) =
      (precheck options body).mapError (FlattenError.reword words)) :
    flatten options' (reword words body) =
      ((flatten options body).map (List.map (LabeledBlock.reword words))).mapError
        (FlattenError.reword words) := by
  have echoes := runFrom_reword apart #[] #[] leaves minting body
  have passes (accepted : Accepted options body) : Accepted options' (reword words body) := by
    rw [← precheck_ok_iff, checked, precheck_ok_iff.2 accepted]
    rfl
  cases result : flatten options body with
  | ok blocks =>
    obtain ⟨accepted, final, ran⟩ := flatten_ok_iff.1 result
    rw [ran] at echoes
    generalize ran' : runFrom #[] options' (reword words body) = result' at echoes
    cases echoes
    exact flatten_ok_iff.2 ⟨passes accepted, _, ran'⟩
  | error fault =>
    rcases flatten_error_iff.1 result with refused | ⟨accepted, final, ran⟩
    · rw [refused] at checked
      exact flatten_error_iff.2 (.inl checked)
    · rw [ran] at echoes
      generalize ran' : runFrom #[] options' (reword words body) = result' at echoes
      cases echoes
      exact flatten_error_iff.2 (.inr ⟨passes accepted, _, ran'⟩)

end Parts

end Unnest.Flatten
