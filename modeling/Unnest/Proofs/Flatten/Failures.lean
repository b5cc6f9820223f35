import Unnest.Proofs.Flatten.Carried
import Unnest.Proofs.Flatten.RefusedOfRun

/-! Why a body is not flattened. Every fault names something that the body really has, and a
body that has none of it is flattened. -/

namespace Unnest.Flatten
open Script

section Run

variable {stem : String} {body : List Stmt} {done : Nat} {run final : Run} {ledger : Ledger}
  {fault : FlattenError}

theorem Steady.unmade (steady : Steady stem body done ledger)
    (plain : ∀ label ∈ labels body, ∀ index, label ≠ Mint.nameAt stem index) :
    Unmade stem ledger := by
  intro index lower bound
  rcases steady.names _ bound with declared | ⟨other, upper, same⟩
  · exact plain _ declared index rfl
  · rw [nameAt_injective stem same] at lower
    exact Nat.not_lt.2 lower upper

theorem infallible_takeNext : Infallible takeNext := by
  intro run fault final failure
  unfold takeNext at failure
  split at failure <;> cases failure

theorem refused_of_makeBlock {block : Pending} (tracks : Tracks stem done run ledger)
    (inside : block.continuation.Inside)
    (begun : Begun stem ledger (.blockStart block.name) block.continuation)
    (unmade : Unmade stem ledger) (failure : makeBlock block run = .error fault final) :
    ∃ later, Refused stem ledger block.continuation block.fallThrough (.blockStart block.name) fault
      later ∧ Tracks stem done final later := by
  obtain ⟨_, reported, event, failure⟩ := RunM.bind_infallible (infallible_reportEvent _) failure
  rcases RunM.bind_error failure with failure | ⟨out, afterPlace, _, failure⟩
  · exact refusable _ inside begun unmade (tracks.reportEvent event) failure
  · obtain ⟨same, got, gets, failure⟩ := RunM.bind_infallible infallible_get failure
    obtain ⟨_, _, _, result⟩ := RunM.bind_infallible (infallible_reportEvent _) failure
    cases result

/-- A run that fails has made some blocks, and the code of the next one is refused. -/
inductive Stopped (stem : String) (fault : FlattenError) : Nat → Ledger → Ledger → Prop where
  | here {done : Nat} {ledger later : Ledger} {block : Pending}
      (waits : ledger.sent[done]? = some block)
      (refused : Refused stem ledger block.continuation block.fallThrough (.blockStart block.name)
        fault later) : Stopped stem fault done ledger later
  | after {done : Nat} {ledger between later : Ledger} {block : Pending} {out : List Stmt}
      (waits : ledger.sent[done]? = some block)
      (placed : Placed stem ledger block.continuation block.fallThrough (.blockStart block.name)
        out between)
      (stopped : Stopped stem fault (done + 1) between later) : Stopped stem fault done ledger later

theorem stopped_of_makeBlocks {limit : Nat}
    (plain : ∀ label ∈ labels body, ∀ index, label ≠ Mint.nameAt stem index)
    (tracks : Tracks stem done run ledger) (steady : Steady stem body done ledger)
    (failure : makeBlocks limit run = .error fault final) :
    ∃ last later, Stopped stem fault done ledger later ∧ Tracks stem last final later := by
  induction limit generalizing done run ledger with
  | zero => cases failure
  | succ limit ih =>
    obtain ⟨taken, middle, takes, failure⟩ := RunM.bind_infallible infallible_takeNext failure
    rcases tracks.takeNext takes with ⟨rfl, _, _⟩ | ⟨block, rfl, waits, tracks⟩
    · cases failure
    · obtain ⟨inside, begun⟩ := steady.next waits
      rcases RunM.bind_error failure with failure | ⟨made, afterBlock, makes, failure⟩
      · obtain ⟨later, refused, tracks⟩ :=
          refused_of_makeBlock tracks inside begun (steady.unmade plain) failure
        exact ⟨_, later, .here waits refused, tracks⟩
      · obtain ⟨out, between, rfl, placed, tracks⟩ := placed_of_makeBlock tracks inside begun makes
        rcases RunM.bind_error failure with failure | ⟨_, _, _, result⟩
        · obtain ⟨last, later, stopped, tracks⟩ :=
            ih tracks (steady.step waits placed) failure
          exact ⟨last, later, .after waits placed stopped, tracks⟩
        · cases result

/-- A run fails while it makes blocks, or not at all. -/
theorem fails_of_runFrom {options : Options}
    (failure : runFrom #[] options body = .error fault final) :
    body ≠ [] ∧ ∃ entry,
      scheduleBody options body (.start options (openedJournal body)) = .ok () entry ∧
        Tracks options.anonymousPrefix 0 entry (entryLedger options body) ∧
          makeBlocks (blockLimit body) entry = .error fault final := by
  by_cases more : body = []
  · subst more
    cases failure
  obtain ⟨entry, starts, tracks⟩ := tracks_scheduleBody options more
  rw [runFrom_eq more] at failure
  rcases RunM.bind_error failure with failure | ⟨_, middle, starts', failure⟩
  · rw [starts] at failure
    cases failure
  cases starts.symm.trans starts'
  rcases RunM.bind_error failure with failure | ⟨made, afterBlocks, _, failure⟩
  · exact ⟨more, entry, starts, tracks, failure⟩
  · obtain ⟨same, got, gets, failure⟩ := RunM.bind_infallible infallible_get failure
    obtain ⟨_, _, _, result⟩ := RunM.bind_infallible (infallible_reportEvent _) failure
    cases result

/-- A run that fails stops at code that is refused. -/
theorem stopped_of_runFrom {options : Options} (accepted : Accepted options body)
    (failure : runFrom #[] options body = .error fault final) :
    ∃ last later, Stopped options.anonymousPrefix fault 0 (entryLedger options body) later ∧
      Tracks options.anonymousPrefix last final later := by
  obtain ⟨_, entry, _, tracks, failure⟩ := fails_of_runFrom failure
  exact stopped_of_makeBlocks (fun label declared => accepted.named declared) tracks
    (steady_entry accepted) failure

end Run

/-- What a fault can blame in the statement is found in the body. -/
def Inherited (body : List Stmt) (statement : Stmt) : Prop :=
  ∀ node ∈ statement.nodes, (bindsJumps node.kind = true ∨ node.ownNamedJump ≠ none) →
    node ∈ nodes body

section Inherited

variable {body : List Stmt} {parent child : Stmt}

theorem Inherited.below (inherited : Inherited body parent) (below : child ∈ parent.children) :
    Inherited body child :=
  fun node member => inherited node (Stmt.mem_nodes_of_child below member)

theorem inherited_of_children (open_ : bindsJumps parent.kind = false)
    (own : parent.ownNamedJump = none) (all : ∀ child ∈ parent.children, Inherited body child) :
    Inherited body parent := by
  intro node member keeps
  rcases Stmt.mem_nodes_iff.1 member with rfl | ⟨child, below, deeper⟩
  · simp [open_, own] at keeps
  · exact all child below node deeper keeps

theorem carried_inherited (body : List Stmt) : Carried (fun _ => True) (Inherited body) where
  block inherited _ member := inherited.below member
  branch {test thenBody elseBody} := by
    constructor
    · intro inherited
      exact ⟨fun _ member => inherited.below (List.mem_append_left _ member),
        fun _ member => inherited.below (List.mem_append_right _ member)⟩
    · rintro ⟨inThen, inElse⟩
      exact inherited_of_children rfl rfl (List.forall_mem_append.2 ⟨inThen, inElse⟩)
  labeled inherited := ⟨trivial, inherited.below (List.mem_singleton_self _)⟩
  goto _ := inherited_of_children rfl rfl nofun
  expression := inherited_of_children rfl rfl nofun
  init inherited := inherited.below (List.mem_cons_self ..)
  loop inherited _ isLoop redirects _ _ _ := by
    intro statement member node below keeps
    have inBody := mem_nodes_of_redirect redirects keeps (mem_nodes.2 ⟨statement, member, below⟩)
    obtain ⟨child, inChildren, deeper⟩ := mem_nodes.1 inBody
    exact inherited.below (body_subset_children isLoop inChildren) node deeper keeps

/-- What a run is stopped by is found in the body. -/
theorem Stopped.blamed {stem : String} {fault : FlattenError} {done : Nat} {ledger later : Ledger}
    (stopped : Stopped stem fault done ledger later)
    (inherited : ∀ block ∈ ledger.sent, block.Holds (fun _ => True) (Inherited body)) :
    Blamed fault body := by
  induction stopped with
  | here waits refused =>
    obtain ⟨node, member, blames⟩ := refused.blamed
    obtain ⟨statement, inCode, below⟩ := mem_nodes.1 member
    have code := (inherited _ (List.mem_of_getElem? waits)).code
    exact ⟨node, code statement inCode node below blames.keeps, blames⟩
  | after waits placed stopped ih =>
    obtain ⟨code, _⟩ := inherited _ (List.mem_of_getElem? waits)
    obtain ⟨_, sentHold⟩ := placed.carried (carried_inherited body) code trivial
      (fun _ _ => trivial) fun _ _ => trivial
    exact ih fun block member => (sentHold block member).elim (inherited block) id

end Inherited

/-- The input has what the fault complains about. A block is never scheduled twice. -/
def Warranted (options : Options) (body : List Stmt) : FlattenError → Prop
  | .invalidOptions fault => options.validate = .error fault
  | .reservedLabel label => label ∈ labels body ∧ options.isReserved label = true
  | .repeatedLabel label => 2 ≤ (labels body).count label
  | .labelInSwitch label => ∃ discriminant cases, .switch discriminant cases ∈ nodes body ∧
      (Stmt.switch discriminant cases).labels.head? = some label
  | .unhandledLabels kind => ∃ init condition iterator loopBody,
      .forLoop init condition iterator loopBody ∈ nodes body ∧ init.kind = kind ∧ init.labels ≠ []
  | .namedJump keyword label => ∃ node ∈ nodes body, node.ownNamedJump = some (keyword, label)
  | .duplicateLabel _ => False

section Result

variable {options : Options} {body : List Stmt} {fault : FlattenError}

theorem warranted_of_blamed (blamed : Blamed fault body) : Warranted options body fault := by
  obtain ⟨node, member, blames⟩ := blamed
  cases fault with
  | namedJump keyword label => exact ⟨node, member, blames⟩
  | labelInSwitch label =>
    cases node with
    | switch discriminant cases => exact ⟨discriminant, cases, member, blames⟩
    | _ => exact blames.elim
  | unhandledLabels kind =>
    cases node with
    | forLoop init condition iterator loopBody =>
      exact ⟨init, condition, iterator, loopBody, member, blames⟩
    | _ => exact blames.elim
  | _ => exact blames.elim

/-- A label that is rejected is reserved or has been seen before. -/
theorem warranted_of_checkLabels {seen declared : List String}
    (counted : ∀ label, (labels body).count label = seen.count label + declared.count label)
    (failure : checkLabels options seen declared = .error fault) : Warranted options body fault := by
  induction declared generalizing seen with
  | nil => cases failure
  | cons label rest ih =>
    have here := counted label
    rw [List.count_cons_self] at here
    rw [checkLabels] at failure
    by_cases reserved : options.isReserved label = true
    · rw [if_pos reserved] at failure
      cases failure
      exact ⟨List.count_pos_iff.1 (by omega), reserved⟩
    · rw [if_neg reserved] at failure
      by_cases repeated : seen.contains label = true
      · rw [if_pos repeated] at failure
        cases failure
        have before := List.count_pos_iff.2 (List.contains_iff_mem.1 repeated)
        exact (by omega : 2 ≤ (labels body).count label)
      · rw [if_neg repeated] at failure
        apply ih _ failure
        intro other
        rw [counted other, List.count_cons, List.count_cons]
        omega

theorem warranted_of_precheck (failure : precheck options body = .error fault) :
    Warranted options body fault := by
  unfold precheck at failure
  cases valid : options.validate with
  | error found =>
    simp only [valid] at failure
    cases failure
    exact valid
  | ok _ =>
    simp only [valid] at failure
    exact warranted_of_checkLabels (fun label => by simp) failure

theorem warranted_of_error (failure : flatten options body = .error fault) :
    Warranted options body fault := by
  rcases flatten_error_iff.1 failure with checked | ⟨accepted, final, ran⟩
  · exact warranted_of_precheck checked
  · obtain ⟨last, later, stopped, _⟩ := stopped_of_runFrom accepted ran
    refine warranted_of_blamed (stopped.blamed (entry_holds ?_))
    exact fun statement inBody node below _ => mem_nodes.2 ⟨statement, inBody, below⟩

/-- Failures are never spurious: each is about a fault of the options or of the body, and when
there is none to be found, the body is flattened. -/
theorem warranted_of_flatten :
    (∀ fault, flatten options body = .error fault → Warranted options body fault) ∧
      ((∀ fault, ¬ Warranted options body fault) → ∃ blocks, flatten options body = .ok blocks) := by
  refine ⟨fun fault failure => warranted_of_error failure, fun flawless => ?_⟩
  cases result : flatten options body with
  | ok blocks => exact ⟨blocks, rfl⟩
  | error fault => exact absurd (warranted_of_error result) (flawless fault)

/-- A label in a switch is found there, and a body with a label and nothing else is flawless. -/
theorem warranted_of_flatten_switch :
    Warranted .standard [.switch .null [.clause none [.labeled "L" .empty]]] (.labelInSwitch "L") ∧
      ∃ blocks, flatten .standard [.labeled "L" .empty] = .ok blocks := by
  have refused : flatten .standard [.switch .null [.clause none [.labeled "L" .empty]]] =
      .error (.labelInSwitch "L") := by cbv
  have listed : nodes [.labeled "L" .empty] = [.labeled "L" .empty, .empty] := by
    simp [Stmt.nodes_children, Stmt.children]
  have declared : labels [.labeled "L" .empty] = ["L"] := by
    simp [Stmt.labels_children .empty, Stmt.ownLabel, Stmt.children]
  refine ⟨warranted_of_flatten.1 _ refused, warranted_of_flatten.2 fun fault => ?_⟩
  cases fault with
  | invalidOptions fault =>
    have valid : Options.standard.validate = .ok () := by decide
    simp [Warranted, valid]
  | reservedLabel label =>
    have free : Options.standard.isReserved "L" = false := by decide
    simp only [Warranted, declared, List.mem_singleton]
    rintro ⟨rfl, reserved⟩
    rw [free] at reserved
    cases reserved
  | repeatedLabel label =>
    have once : (["L"] : List String).count label ≤ 1 := List.count_le_length
    simp only [Warranted, declared]
    omega
  | labelInSwitch label | unhandledLabels kind | namedJump keyword label =>
    simp [Warranted, listed, Stmt.ownNamedJump]
  | duplicateLabel label => exact id

end Result

end Unnest.Flatten
