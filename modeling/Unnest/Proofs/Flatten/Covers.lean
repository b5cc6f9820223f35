import Unnest.Proofs.Flatten.Carried

/-! Which blocks a run makes in the end: one for every name that is made up and one for
every declared label, each under its own name. -/

namespace Unnest.Flatten
open Script

variable {stem : String} {ledger between later : Ledger} {done last : Nat}
  {blocks : List LabeledBlock}

theorem MadeUp.split {name : String} (made : MadeUp stem ledger later name)
    (between : Ledger) : MadeUp stem ledger between name ∨ MadeUp stem between later name := by
  obtain ⟨index, lower, upper, same⟩ := made
  by_cases early : index < between.minted
  · exact .inl ⟨index, lower, early, same⟩
  · exact .inr ⟨index, Nat.le_of_not_lt early, upper, same⟩

theorem not_madeUp {name : String} (same : later.minted = ledger.minted) :
    ¬ MadeUp stem ledger later name := by
  rintro ⟨index, lower, upper, _⟩
  omega

/-- The name that is made up for the code after a branch goes to the block with that code. -/
theorem names_of_settle {fallThrough name : String} {following : Continuation Stmt}
    {after : Successor} {named settled : Ledger}
    (chosen : Chosen stem ledger fallThrough following.remaining after named)
    (settles : between.settle? after following fallThrough = some settled)
    (made : MadeUp stem ledger named name) : name ∈ settled.names := by
  have promising := chosen.promising
  obtain ⟨promise, member, owned⟩ := promising.covers name made
  cases after with
  | fallThrough label => cases member
  | next label =>
    generalize following.remaining = remains at chosen
    cases chosen
    exact absurd made (not_madeUp rfl)
  | fresh label =>
    cases List.mem_singleton.1 member
    rw [Ledger.names_of_send settles, ← owned]
    exact List.mem_append_right _ (List.mem_singleton_self _)

/-- Every name that is made up while code is placed is bound by the end. -/
theorem Placed.covers {fallThrough : String} {code : Continuation Stmt} {spot : Spot}
    {out : List Stmt} (placed : Placed stem ledger code fallThrough spot out later) :
    ∀ name, MadeUp stem ledger later name → name ∈ later.names := by
  induction placed with
  | ends nothing => exact fun name made => absurd made (not_madeUp rfl)
  | opens met owned arrival sent =>
    exact fun name made => absurd made (not_madeUp (by rw [(Ledger.send_inv sent).2]))
  | unwraps met owned arrival placed ih => exact ih
  | copies met owned arrival free plain placed ih => exact ih
  | splices met owned arrival labeled placed ih => exact ih
  | branches met owned arrival labeled chosen thenPlaced elsePlaced settles placed ihThen ihElse ih =>
    intro name made
    have chosen := chosen_of_successor chosen
    obtain ⟨settled, same⟩ := settle_inv settles
    rcases made.split _ with atNamed | made
    · exact placed.grows.names_subset (names_of_settle chosen settles atNamed)
    rcases made.split _ with inThen | made
    · exact placed.grows.names_subset
        (settled (elsePlaced.grows.names_subset (ihThen name inThen)))
    rcases made.split _ with inElse | made
    · exact placed.grows.names_subset (settled (ihElse name inElse))
    rcases made.split _ with atSettle | made
    · exact absurd atSettle (not_madeUp same)
    · exact ih name made
  | inlines met owned arrival labeled isLoop plainInit start ready planned redirects placed kept ih =>
    intro name made
    have same := congrArg Ledger.minted (Ledger.sendAll_inv kept)
    rcases made.split _ with atNamed | made
    · obtain ⟨promise, member, owned⟩ := (layout_promising planned).covers name atNamed
      rw [Ledger.names_of_sendAll kept, List.map_map, ← owned]
      exact List.mem_append_right _ (List.mem_map.2 ⟨promise, member, rfl⟩)
    rcases made.split _ with inBody | made
    · rw [Ledger.names_of_sendAll kept]
      exact List.mem_append_left _ (ih name inBody)
    · exact absurd made (not_madeUp same)
  | @splits ledger later _ _ _ _ _ _ _ _ _ met owned arrival labeled isLoop plainInit unready sent =>
    rintro name ⟨index, lower, upper, same⟩
    rw [(Ledger.send_inv sent).2] at upper
    have exactly : index = ledger.minted := Nat.le_antisymm (Nat.le_of_lt_succ upper) lower
    rw [Ledger.names_of_send sent, same, exactly]
    exact List.mem_append_right _ (List.mem_singleton_self _)

/-- The blocks have the names of the ledger, in order. -/
theorem Made.blocks_names (made : Made stem done ledger blocks last later) :
    blocks.map LabeledBlock.name ++ later.names.drop last = later.names.drop done := by
  induction made with
  | stops => rfl
  | @makes done last ledger between later block out others waits placed made ih =>
    obtain ⟨front, sent⟩ := placed.grows.sent
    obtain ⟨back, further⟩ := made.sent
    have found : later.names[done]? = some block.name := by
      rw [Ledger.names, List.getElem?_map, further, sent, List.append_assoc,
        List.getElem?_append_left (List.getElem?_eq_some_iff.1 waits).1, waits]
      rfl
    obtain ⟨bound, value⟩ := List.getElem?_eq_some_iff.1 found
    rw [List.drop_eq_getElem_cons bound, value, ← ih]
    rfl

/-- When every block has been made, the blocks have the names of the ledger. -/
theorem Made.names (made : Made stem 0 ledger blocks later.sent.length later) :
    blocks.map LabeledBlock.name = later.names := by
  have same := made.blocks_names
  rwa [List.drop_zero, List.drop_eq_nil_of_le (by simp [Ledger.names]), List.append_nil] at same

/-- Every name that is made up from the first on is bound by the end. -/
theorem Made.covers (made : Made stem done ledger blocks last later) :
    ∀ name, MadeUp stem ledger later name → name ∈ later.names := by
  induction made with
  | stops => exact fun name made => absurd made (not_madeUp rfl)
  | makes waits placed rest ih =>
    intro name made
    rcases made.split _ with here | made
    · exact rest.names_subset (placed.covers name here)
    · exact ih name made

/-- A label that some block has still to come to is bound by the end, or still to come. -/
theorem Made.labels (made : Made stem done ledger blocks last later) :
    ∀ label ∈ (ledger.sent.drop done).flatMap Pending.labels,
      label ∈ later.names ∨ label ∈ (later.sent.drop last).flatMap Pending.labels := by
  induction made with
  | stops => exact fun label member => .inr member
  | @makes done last ledger between later block out others waits placed made ih =>
    intro label member
    obtain ⟨more, spent, sent, conserved, bound, _⟩ := placed.hands
    have within := (List.getElem?_eq_some_iff.1 waits).1
    have dropped : between.sent.drop (done + 1) = ledger.sent.drop (done + 1) ++ more := by
      rw [sent, List.drop_append_of_le_length within]
    rw [drop_of_waits waits, List.flatMap_cons, List.mem_append] at member
    rcases member with here | rest
    · rcases List.mem_append.1 (conserved.mem_iff.1 here) with gone | handed
      · exact .inl (made.names_subset (bound gone))
      · apply ih
        rw [dropped, List.flatMap_append]
        exact List.mem_append_right _ handed
    · apply ih
      rw [dropped, List.flatMap_append]
      exact List.mem_append_left _ rest

end Unnest.Flatten
