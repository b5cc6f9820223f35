import Unnest.Proofs.Flatten.Covers

/-! Properties that are found out about code in the end. Placing code shows a property of what
it takes apart, and leaves the rest to the blocks that it schedules; when no block is left,
the property holds of the whole body. -/

namespace Unnest.Flatten
open Script

/-- The property holds of the statements if it holds of what is seen of the blocks that are
scheduled in between. -/
def Defers (view : Continuation Stmt → List Stmt) (holds : Stmt → Prop) (statements : List Stmt)
    (ledger later : Ledger) : Prop :=
  ∃ more, later.sent = ledger.sent ++ more ∧
    ((∀ block ∈ more, ∀ statement ∈ view block.continuation, holds statement) →
      ∀ statement ∈ statements, holds statement)

section Defers

variable {view : Continuation Stmt → List Stmt} {holds : Stmt → Prop} {stem fallThrough : String}
  {ledger between later : Ledger} {front back : List Stmt}

theorem Defers.none : Defers view holds [] ledger ledger := ⟨[], (List.append_nil _).symm, nofun⟩

theorem Defers.trans (first : Defers view holds front ledger between)
    (second : Defers view holds back between later) :
    Defers view holds (front ++ back) ledger later := by
  obtain ⟨early, sent, before⟩ := first
  obtain ⟨late, others, after⟩ := second
  refine ⟨early ++ late, by rw [others, sent, List.append_assoc], ?_⟩
  intro all
  rw [List.forall_mem_append] at all ⊢
  exact ⟨before all.1, after all.2⟩

theorem Defers.imp (defers : Defers view holds front ledger later)
    (shows : (∀ statement ∈ front, holds statement) → ∀ statement ∈ back, holds statement) :
    Defers view holds back ledger later := by
  obtain ⟨more, sent, all⟩ := defers
  exact ⟨more, sent, shows ∘ all⟩

theorem Defers.minted (defers : Defers view holds front between later)
    (same : between.sent = ledger.sent) : Defers view holds front ledger later := by
  obtain ⟨more, sent, all⟩ := defers
  exact ⟨more, by rw [sent, same], all⟩

theorem Defers.ofSend {block : Pending} (sent : ledger.send? block = some later) :
    Defers view holds (view block.continuation) ledger later :=
  ⟨[block], by rw [(Ledger.send_inv sent).2], fun all => all block (List.mem_singleton_self _)⟩

theorem Defers.ofSendAll {blocks : List Pending} {block : Pending}
    (sent : ledger.sendAll? blocks = some later) (member : block ∈ blocks) :
    Defers view holds (view block.continuation) ledger later :=
  ⟨blocks, by rw [Ledger.sendAll_inv sent], fun all => all block member⟩

theorem Defers.settle {following : Continuation Stmt} {after : Successor} {settled : Ledger}
    (settles : ledger.settle? after following fallThrough = some settled)
    (defers : Defers view holds (view (after.leftover following)) settled later) :
    Defers view holds (view following) ledger later := by
  cases after with
  | next | fallThrough =>
    cases settles
    exact defers
  | fresh name =>
    apply ((Defers.ofSend settles).trans defers).imp
    rw [List.forall_mem_append]
    exact And.left

/-- The whole run shows the property of every block that waits at its beginning. -/
theorem Made.defers (view : Continuation Stmt → List Stmt) (holds : Stmt → Prop)
    {done last : Nat} {blocks : List LabeledBlock}
    (made : Made stem done ledger blocks last later)
    (each : ∀ {ledger between : Ledger} {block : Pending} {out : List Stmt},
      Placed stem ledger block.continuation block.fallThrough (.blockStart block.name) out between →
        ⟨block.name, out⟩ ∈ blocks → Defers view holds (view block.continuation) ledger between)
    (complete : last = later.sent.length) :
    ∀ block ∈ ledger.sent.drop done, ∀ statement ∈ view block.continuation, holds statement := by
  induction made with
  | stops =>
    rw [complete, List.drop_length]
    nofun
  | @makes done last ledger between later block out others waits placed made ih =>
    obtain ⟨more, sent, shows⟩ := each placed (List.mem_cons_self ..)
    have within := (List.getElem?_eq_some_iff.1 waits).1
    have all := ih (fun placed member => each placed (List.mem_cons_of_mem _ member)) complete
    rw [sent, List.drop_append_of_le_length within, List.forall_mem_append] at all
    rw [drop_of_waits waits, List.forall_mem_cons]
    exact ⟨shows all.2, all.1⟩

end Defers

end Unnest.Flatten
