import Unnest.Proofs.Flatten.Unseen
import Unnest.Proofs.Semantics.Redirect

/-! What the code that is still ahead means. The labels that are passed on the way do not matter
to it, and a loop behind its initializer goes on with its first test. -/

namespace Unnest.Script

universe u

variable {σ : Type u} {meant : Interpretation σ} {exits : Exits σ}

theorem entries_labels_of {code : List Stmt}
    (each : ∀ statement ∈ code, ∀ {exits : Exits σ},
      (statement.entries meant exits).map Prod.fst = statement.labels) :
    (entries meant exits code).map Prod.fst = labels code := by
  induction code with
  | nil => rfl
  | cons first rest ih =>
    rw [entries, List.map_append, each first (List.mem_cons_self ..),
      ih fun statement member => each statement (List.mem_cons_of_mem _ member)]
    rfl

theorem Stmt.entries_labels (statement : Stmt) :
    (statement.entries meant exits).map Prod.fst = statement.labels := by
  induction statement using Stmt.childInduction generalizing exits with
  | step parent ih =>
    have all {body : List Stmt} {exits : Exits σ} (inside : body ⊆ parent.children) :
        (Script.entries meant exits body).map Prod.fst = Script.labels body :=
      entries_labels_of fun child member => ih child (inside member)
    rw [Stmt.labels_children]
    cases parent with
    | block body => exact all (List.Subset.refl _)
    | branch test thenBody elseBody =>
      rw [Stmt.entries_branch, List.map_append, all (List.subset_append_left _ _),
        all (List.subset_append_right _ _), Stmt.children, labels_append]
      rfl
    | whileLoop condition body => exact all (List.Subset.refl _)
    | doLoop body condition => exact all (List.Subset.refl _)
    | forLoop init condition iterator body =>
      rw [Stmt.entries, List.map_append, ih init (List.mem_cons_self ..),
        all (List.subset_cons_self _ _)]
      rfl
    | labeled label body =>
      rw [Stmt.entries, List.map_cons, ih body (List.mem_singleton_self _)]
      simp [Stmt.ownLabel, Stmt.children]
    | switch discriminant cases =>
      rw [Stmt.entries, caseEntries_eq]
      exact all (List.Subset.refl _)
    | _ => rfl

/-- The entries of code are its labels. -/
theorem entries_labels (code : List Stmt) : (entries meant exits code).map Prod.fst = labels code :=
  entries_labels_of fun statement _ => statement.entries_labels

theorem Stmt.entries_of_free {statement : Stmt} (free : statement.containsLabels = false) :
    statement.entries meant exits = [] := by
  rw [← List.map_eq_nil_iff (f := Prod.fst), Stmt.entries_labels, Stmt.labels_eq_nil_iff]
  exact free

end Unnest.Script

namespace Unnest.Flatten
open Script

universe u

variable {σ : Type u} {meant : Interpretation σ} {exits : Exits σ}

/-- A loop behind its initializer. The labels on it have been passed. -/
def resumed : Stmt → Stmt
  | .labeled _ body => resumed body
  | .forLoop _ condition iterator body => .forLoop .empty condition iterator body
  | statement => statement

/-- What a statement still has to do. -/
def dueOf (afterInit : Bool) (statement : Stmt) : Stmt :=
  if afterInit then resumed statement else statement

theorem dueOf_of_resumed {statement : Stmt} (same : resumed statement = statement)
    (afterInit : Bool) : dueOf afterInit statement = statement := by
  cases afterInit with
  | false => rfl
  | true => exact same

/-- What remains of the code. A loop that has run its initializer goes on behind it. -/
def Continuation.due (code : Continuation Stmt) : List Stmt :=
  code.remaining.modifyHead (dueOf (code.peek.any Frame.afterInit))

/-- Where control goes when it leaves code that is put into blocks. Nothing is left of the loops
around it, so that a jump of its own leads nowhere. -/
def leading (shows : String → Sights σ) (fallThrough : String) : Exits σ :=
  ⟨shows fallThrough, ends .stray, ends .stray, shows⟩

/-- What a block means that is still to be made, by what each label shows. -/
def Pending.meaning (meant : Interpretation σ) (shows : String → Sights σ) (block : Pending) :
    Sights σ :=
  Script.meaning meant (leading shows block.fallThrough) block.continuation.due

/-- The labels in a block that is still to be made, with what the code shows from each. -/
def Pending.entries (meant : Interpretation σ) (shows : String → Sights σ) (block : Pending) :
    List (String × Sights σ) :=
  Script.entries meant (leading shows block.fallThrough) block.continuation.due

section Due

variable {code rest : Continuation Stmt} {frame : Frame Stmt} {current inner : Stmt}
  {isBound : String → Bool}

theorem due_of_whole (whole : code.Whole) : code.due = code.remaining := by
  obtain ⟨_ | ⟨frame, frames⟩⟩ := code
  · rfl
  · have plain : frame.afterInit = false := whole frame (List.mem_cons_self ..)
    have same : dueOf ((Continuation.mk (frame :: frames)).peek.any Frame.afterInit) = id := by
      funext statement
      simp [Continuation.peek, plain, dueOf]
    rw [Continuation.due, same, List.modifyHead_id]
    rfl

theorem due_ofBlock (block : List Stmt) : (Continuation.ofBlock block).due = block := by
  rw [due_of_whole (Continuation.whole_ofBlock _), Continuation.remaining_ofBlock]

theorem due_push_block (whole : code.Whole) (block : List Stmt) :
    (code.push ⟨block, 0, false⟩).due = block ++ code.remaining := by
  rw [due_of_whole (Continuation.whole_push whole rfl), Continuation.remaining_push_block]

theorem due_of_at (met : code.At frame rest current) :
    code.due = dueOf frame.afterInit current :: (rest.pushFollowing frame).remaining := by
  rw [Continuation.due, met.remaining, Continuation.peek, met.frames]
  rfl

theorem due_push_single (code : Continuation Stmt) (statement : Stmt) (afterInit : Bool) :
    (code.push ⟨[statement], 0, afterInit⟩).due = dueOf afterInit statement :: code.remaining := by
  rw [Continuation.due, Continuation.remaining_push]
  rfl

theorem Passed.meaning_dueOf (passed : Passed isBound current inner) (afterInit : Bool) :
    (dueOf afterInit current).meaning meant exits = (dueOf afterInit inner).meaning meant exits := by
  cases passed with
  | plain own => rfl
  | below bound => cases afterInit <;> rfl

/-- A label that is passed shows what the code shows. -/
theorem Passed.entries_dueOf (passed : Passed isBound current inner) (afterInit : Bool) :
    (dueOf afterInit current).entries meant exits = (dueOf afterInit inner).entries meant exits ∨
      ∃ label, afterInit = false ∧ current.ownLabel = some label ∧ isBound label = true ∧
        (dueOf afterInit current).entries meant exits =
          (label, (dueOf afterInit current).meaning meant exits) ::
            (dueOf afterInit inner).entries meant exits := by
  cases passed with
  | plain own => exact .inl rfl
  | below bound =>
    cases afterInit with
    | false => exact .inr ⟨_, rfl, rfl, bound, rfl⟩
    | true => exact .inl rfl

theorem Passed.meaning_due (passed : Passed isBound current inner)
    (met : code.At frame rest current) : Script.meaning meant exits code.due =
      Script.meaning meant exits
        (dueOf frame.afterInit inner :: (rest.pushFollowing frame).remaining) := by
  rw [due_of_at met]
  exact passed.meaning_dueOf _

/-- The labels behind one that is passed are labels of the code. -/
theorem Passed.entries_subset (passed : Passed isBound current inner)
    (met : code.At frame rest current) : Script.entries meant exits
        (dueOf frame.afterInit inner :: (rest.pushFollowing frame).remaining) ⊆
      Script.entries meant exits code.due := by
  have inside {exits : Exits σ} : (dueOf frame.afterInit inner).entries meant exits ⊆
      (dueOf frame.afterInit current).entries meant exits := by
    rcases passed.entries_dueOf frame.afterInit with same | ⟨label, _, _, _, same⟩
    · rw [same]
      exact List.Subset.refl _
    · rw [same]
      exact List.subset_cons_self _ _
  rw [due_of_at met]
  exact List.append_subset.2
    ⟨List.subset_append_of_subset_left _ inside, List.subset_append_right _ _⟩

/-- The labels of code are those behind the first one, which is the name of the block in the
making if it is bound already. -/
theorem Owned.entries_due {ledger : Ledger} {spot : Spot}
    (owned : Owned ledger spot frame rest current) (met : code.At frame rest current)
    (passed : Passed ledger.isBound current inner) :
    Script.entries meant exits code.due = Script.entries meant exits
        (dueOf frame.afterInit inner :: (rest.pushFollowing frame).remaining) ∨
      ∃ label, spot.reentry = some label ∧ Script.entries meant exits code.due =
        (label, Script.meaning meant exits code.due) :: Script.entries meant exits
          (dueOf frame.afterInit inner :: (rest.pushFollowing frame).remaining) := by
  rw [due_of_at met]
  rcases passed.entries_dueOf frame.afterInit with same | ⟨label, first, own, bound, same⟩
  · exact .inl (congrArg (· ++ _) same)
  · exact .inr ⟨label, owned.start first label own bound, congrArg (· ++ _) same⟩

/-- Only a loop that contains labels is resumed behind its initializer. -/
theorem Owned.dueOf_free {ledger : Ledger} {spot : Spot}
    (owned : Owned ledger spot frame rest current)
    (arrival : arrive ledger.isBound current = .runs inner) (free : inner.containsLabels = false) :
    dueOf frame.afterInit inner = inner := by
  cases after : frame.afterInit with
  | false => rfl
  | true =>
    obtain ⟨loop, passed, own, labeled⟩ := owned.resumed after
    obtain ⟨plain, also⟩ := runs_inv arrival
    rw [passed.unique own also plain, free] at labeled
    cases labeled

end Due

section Placed

variable {shows : String → Sights σ} {fallThrough : String} {spot : Spot} {out : List Stmt}

/-- Where control would go from closed code does not matter. -/
theorem meaning_leading {flat : List Stmt} (closed : fallsThrough flat = false)
    (first second : String) :
    meaning meant (leading shows first) flat = meaning meant (leading shows second) flat := by
  have same : meaning meant { leading shows second with falls := shows first } flat =
      meaning meant (leading shows second) flat := meaning_of_closed closed
  exact same

theorem Pending.meaning_ofBlock (block : List Stmt) (name : String) :
    Pending.meaning meant shows ⟨.ofBlock block, name, fallThrough⟩ =
      Script.meaning meant (leading shows fallThrough) block := by
  rw [Pending.meaning, due_ofBlock]

theorem Pending.entries_ofBlock (block : List Stmt) (name : String) :
    Pending.entries meant shows ⟨.ofBlock block, name, fallThrough⟩ =
      Script.entries meant (leading shows fallThrough) block := by
  rw [Pending.entries, due_ofBlock]

theorem meaning_jump {label : String} (reached : spot.reached = true) :
    meaning meant (leading shows fallThrough) (spot.jump label) = shows label := by
  rw [Spot.jump, if_pos reached]
  rfl

theorem meaning_flatBranch (test : Expr) (thenFlat elseFlat : List Stmt)
    (elseBody : Option (List Stmt)) (label : String) :
    meaning meant (leading shows label)
        (flatBranch test thenFlat (elseBody.map fun _ => elseFlat) label) =
      tested meant test (meaning meant (leading shows label) thenFlat)
        (if elseBody.isSome then meaning meant (leading shows label) elseFlat else shows label) := by
  cases elseBody <;> rfl

/-- What is placed behind a branch is not reached from it. -/
theorem meaning_flatBranch_append {test : Expr} {thenFlat elseFlat : List Stmt}
    (thenClosed : fallsThrough thenFlat = false) (elseClosed : fallsThrough elseFlat = false)
    (elseBody : Option (List Stmt)) (label : String) :
    meaning meant (leading shows fallThrough)
        (flatBranch test thenFlat (elseBody.map fun _ => elseFlat) label ++ out) =
      tested meant test (meaning meant (leading shows label) thenFlat)
        (if elseBody.isSome then meaning meant (leading shows label) elseFlat else shows label) := by
  have closed := flatBranch_closed test elseBody label thenClosed elseClosed
  rw [meaning_append, meaning_of_closed closed, meaning_leading closed, meaning_flatBranch]

end Placed

end Unnest.Flatten
