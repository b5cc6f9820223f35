import Unnest.Proofs.Flatten.Accepted
import Unnest.Proofs.Flatten.Made

/-! What success means. A body that flattens has passed the checks, and its blocks are made
one after another from the block for the whole body until none is left. -/

namespace Unnest.Flatten
open Script

variable {options : Options} {body : List Stmt} {blocks : List LabeledBlock}

/-- The ledger when the whole body has been scheduled. -/
def entryLedger (options : Options) (body : List Stmt) : Ledger :=
  { sent := [⟨.ofBlock body, Mint.nameAt options.anonymousPrefix 0, options.exitLabel⟩], minted := 1 }

theorem steady_entry (accepted : Accepted options body) :
    Steady options.anonymousPrefix body 0 (entryLedger options body) where
  started := Nat.zero_le _
  inside block member := by
    cases List.mem_singleton.1 member
    exact Continuation.inside_ofBlock _
  begun block member := by
    cases List.mem_singleton.1 member
    have unseen : Unseen options.anonymousPrefix (entryLedger options body).names body :=
      ⟨accepted.distinct, fun label declared => accepted.named declared,
        fun label declared bound => accepted.named declared 0 (List.mem_singleton.1 bound)⟩
    exact (unseen.sublist (by simp)).begun (Continuation.whole_ofBlock _)
  apart := by simpa [entryLedger, Pending.labels] using accepted.distinct
  declared block member := by
    cases List.mem_singleton.1 member
    simp [Pending.labels]
  names name member := .inr ⟨0, Nat.zero_lt_one, List.mem_singleton.1 member⟩
  distinct := by simp [entryLedger, Ledger.names]
  within := by simp [entryLedger, dues]

/-- A body is flattened when it passes the checks and all of its blocks can be made. -/
inductive Flattened (options : Options) : List Stmt → List LabeledBlock → Prop where
  | nothing (accepted : Accepted options []) :
      Flattened options [] [⟨Mint.nameAt options.anonymousPrefix 0, [.goto options.exitLabel]⟩]
  | something {body : List Stmt} {blocks : List LabeledBlock} {later : Ledger}
      (accepted : Accepted options body)
      (made : Made options.anonymousPrefix 0 (entryLedger options body) blocks later.sent.length
        later) : Flattened options body blocks

/-- The first step of a run schedules the whole body. -/
def scheduleBody (options : Options) (body : List Stmt) : RunM Unit := do
  let entry ← freshName
  enqueue ⟨.ofBlock body, entry, options.exitLabel⟩

/-- The journal when a run begins. -/
def openedJournal (body : List Stmt) : Journal := (Array.push #[] (.opened body.length)).push .entered

/-- A run begins with nothing in its ledger. -/
theorem tracks_start (options : Options) (body : List Stmt) :
    Tracks options.anonymousPrefix 0 (.start options (openedJournal body))
      { sent := [], minted := 0 } where
  names := rfl
  queue := rfl
  mint := rfl
  started := Nat.le_refl _
  moved := rfl
  inlined := rfl
  undropped := rfl

theorem runFrom_eq (more : body ≠ []) : runFrom #[] options body =
    (do
      scheduleBody options body
      let blocks ← makeBlocks (blockLimit body)
      let run ← get
      reportEvent (.flattenComplete blocks.length run.schedule.registered run.mint.minted)
      return blocks : RunM (List LabeledBlock)) (.start options (openedJournal body)) := by
  cases body with
  | nil => exact absurd rfl more
  | cons first rest => rfl

/-- Nothing can go wrong before the first block is made. -/
theorem tracks_scheduleBody (options : Options) (more : body ≠ []) :
    ∃ entry, scheduleBody options body (.start options (openedJournal body)) = .ok () entry ∧
      Tracks options.anonymousPrefix 0 entry (entryLedger options body) := by
  cases body with
  | nil => exact absurd rfl more
  | cons first rest =>
    have starts : ∃ entry, scheduleBody options (first :: rest)
        (.start options (openedJournal (first :: rest))) = .ok () entry := ⟨_, rfl⟩
    obtain ⟨entry, starts⟩ := starts
    refine ⟨entry, starts, ?_⟩
    obtain ⟨name, middle, minted, sent⟩ := RunM.bind_ok starts
    obtain ⟨rfl, tracks⟩ := (tracks_start options _).freshName minted
    obtain ⟨ledger, sent, tracks⟩ := tracks.enqueue rfl sent
    have same : ledger = entryLedger options (first :: rest) := (Ledger.send_inv sent).2
    exact same ▸ tracks

/-- A run that succeeds has made every block that it scheduled. -/
theorem made_of_entry {entry final : Run} (accepted : Accepted options body)
    (tracks : Tracks options.anonymousPrefix 0 entry (entryLedger options body))
    (success : makeBlocks (blockLimit body) entry = .ok blocks final) :
    ∃ later, Made options.anonymousPrefix 0 (entryLedger options body) blocks later.sent.length
        later ∧ Tracks options.anonymousPrefix later.sent.length final later ∧
          blocks.length < blockLimit body := by
  obtain ⟨last, later, made, tracks, complete⟩ :=
    made_of_makeBlocks tracks (steady_entry accepted) success
  have steady := made.steady (steady_entry accepted)
  have done := made.last
  have few := steady.sent_lt
  have bound := steady.started
  have finished : last = later.sent.length := complete.resolve_right (by omega)
  subst finished
  exact ⟨later, made, tracks, by omega⟩

/-- A run makes its blocks once the whole body has been scheduled, and then reports. -/
theorem makes_of_runFrom {final : Run} (more : body ≠ [])
    (success : runFrom #[] options body = .ok blocks final) :
    ∃ entry last event, scheduleBody options body (.start options (openedJournal body)) = .ok () entry ∧
      Tracks options.anonymousPrefix 0 entry (entryLedger options body) ∧
        makeBlocks (blockLimit body) entry = .ok blocks last ∧ event.Quiet ∧ final = last.note event := by
  obtain ⟨entry, starts, tracks⟩ := tracks_scheduleBody options more
  rw [runFrom_eq more] at success
  obtain ⟨_, middle, starts', success⟩ := RunM.bind_ok success
  cases starts.symm.trans starts'
  obtain ⟨made, afterBlocks, makes, success⟩ := RunM.bind_ok success
  obtain ⟨same, got, gets, success⟩ := RunM.bind_ok success
  cases gets
  obtain ⟨_, finished, closing, result⟩ := RunM.bind_ok success
  cases closing
  cases result
  exact ⟨entry, afterBlocks, _, starts, tracks, makes, ⟨rfl, rfl, rfl⟩, rfl⟩

theorem made_of_runFrom {final : Run} (accepted : Accepted options body) (more : body ≠ [])
    (success : runFrom #[] options body = .ok blocks final) :
    ∃ later, Made options.anonymousPrefix 0 (entryLedger options body) blocks later.sent.length
        later ∧ Tracks options.anonymousPrefix later.sent.length final later := by
  obtain ⟨entry, last, event, _, tracks, makes, quiet, rfl⟩ := makes_of_runFrom more success
  obtain ⟨later, made, tracks, _⟩ := made_of_entry accepted tracks makes
  exact ⟨later, made, tracks.note quiet⟩

/-- A body flattens when it passes the checks and its run succeeds. -/
theorem flatten_ok_iff : flatten options body = .ok blocks ↔
    Accepted options body ∧ ∃ final, runFrom #[] options body = .ok blocks final := by
  rw [← precheck_ok_iff]
  unfold flatten flattenRecorded Recording.result
  cases precheck options body with
  | error fault => simp [EStateM.run]
  | ok _ => cases ran : runFrom #[] options body <;> simp [EStateM.run, ran]

/-- A body fails the checks, or passes them and its run fails. -/
theorem flatten_error_iff {fault : FlattenError} : flatten options body = .error fault ↔
    precheck options body = .error fault ∨
      Accepted options body ∧ ∃ final, runFrom #[] options body = .error fault final := by
  rw [← precheck_ok_iff]
  unfold flatten flattenRecorded Recording.result
  cases precheck options body with
  | error other => simp [EStateM.run]
  | ok _ => cases ran : runFrom #[] options body <;> simp [EStateM.run, ran]

theorem flattened_of_flatten (success : flatten options body = .ok blocks) :
    Flattened options body blocks := by
  obtain ⟨accepted, final, success⟩ := flatten_ok_iff.1 success
  cases body with
  | nil =>
    cases success
    exact .nothing accepted
  | cons first rest =>
    obtain ⟨later, made, _⟩ := made_of_runFrom accepted (List.cons_ne_nil _ _) success
    exact .something accepted made

/-- A `for` loop around a label, and a statement after it. -/
def labeledFor : List Stmt :=
  [.forLoop (.expression (.identifier "start")) (some (.identifier "more"))
      (some (.identifier "step")) [.labeled "L" (.expression (.identifier "work"))],
    .expression (.identifier "last")]

theorem nodes_labeledFor : nodes labeledFor =
    [.forLoop (.expression (.identifier "start")) (some (.identifier "more"))
      (some (.identifier "step")) [.labeled "L" (.expression (.identifier "work"))],
    .expression (.identifier "start"), .labeled "L" (.expression (.identifier "work")),
    .expression (.identifier "work"), .expression (.identifier "last")] := by
  simp [labeledFor, Stmt.nodes_children, Stmt.children]

theorem containsLabels_labeledFor : (Stmt.forLoop (.expression (.identifier "start"))
    (some (.identifier "more")) (some (.identifier "step"))
    [.labeled "L" (.expression (.identifier "work"))]).containsLabels = true := by
  simp [Stmt.containsLabels_eq, Stmt.children, Stmt.ownLabel]

/-- The loop moves to a block of its own, which its iterator goes back to. -/
def labeledForBlocks : List LabeledBlock :=
  [⟨"$sm0", [.expression (.identifier "start"), .goto "$sm1"]⟩,
    ⟨"$sm1", [.ifThen (.unary "!" (.identifier "more")) [.goto "$sm3"], .goto "L"]⟩,
    ⟨"L", [.expression (.identifier "work"), .goto "$sm2"]⟩,
    ⟨"$sm2", [.expression (.identifier "step"), .goto "$sm1"]⟩,
    ⟨"$sm3", [.expression (.identifier "last"), .goto "$exit"]⟩]

theorem flatten_labeledFor : flatten .standard labeledFor = .ok labeledForBlocks := by cbv

theorem Flattened.accepted (flattened : Flattened options body blocks) : Accepted options body := by
  cases flattened with
  | nothing accepted => exact accepted
  | something accepted made => exact accepted

end Unnest.Flatten
