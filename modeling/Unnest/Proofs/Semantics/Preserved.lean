import Unnest.Proofs.Flatten.Renamed
import Unnest.Proofs.Flatten.Verified
import Unnest.Proofs.Semantics.Adequate
import Unnest.Proofs.Semantics.Exact

/-! Flattening preserves meaning. What the blocks of a body show as a dispatch machine, from the
first block and from each label, is what the body shows as it is written. -/

namespace Unnest.Flatten
open Script

universe u

variable {σ : Type u} {meant : Interpretation σ} {shows : String → Sights σ}

section Made

variable {stem : String} {done last : Nat} {ledger later : Ledger} {blocks : List LabeledBlock}

theorem Made.sent_subset (made : Made stem done ledger blocks last later) :
    ledger.sent ⊆ later.sent := by
  obtain ⟨more, same⟩ := made.sent
  rw [same]
  exact List.subset_append_left _ _

/-- When each name shows what the statements of its block do, every block that has waited means no
more than its name shows. -/
theorem Made.refines (negates : meant.Negates) (made : Made stem done ledger blocks last later)
    (complete : last = later.sent.length)
    (reached : ∀ block ∈ later.sent, ∀ statement ∈ block.continuation.remaining,
      AllReached statement)
    (shown : ∀ block ∈ blocks, ∀ fallThrough,
      meaning meant (leading shows fallThrough) block.statements ≤ shows block.name) :
    ∀ block ∈ later.sent, block ∈ ledger.sent.take done ∨ block.Below meant shows := by
  induction made with
  | stops =>
    intro block member
    rw [complete, List.take_length]
    exact .inl member
  | @makes done last ledger between later block out others waits placed made ih =>
    have others := ih complete reached fun other member => shown other (List.mem_cons_of_mem _ member)
    obtain ⟨bound, value⟩ := List.getElem?_eq_some_iff.1 waits
    obtain ⟨more, sent⟩ := placed.grows.sent
    have taken : between.sent.take (done + 1) = ledger.sent.take done ++ [block] := by
      rw [sent, List.take_append_of_le_length bound, List.take_add_one, waits]
      rfl
    have old : ledger.sent.take done ++ [block] ⊆ ledger.sent := by
      rw [← taken, sent, List.take_append_of_le_length bound]
      exact List.take_subset _ _
    rw [taken] at others
    have refines := placed.refines negates
      (reached block (made.sent_subset (placed.grows.sent_subset (List.mem_of_getElem? waits))))
      (fun name start => by
        cases start
        exact ⟨rfl, shown _ (List.mem_cons_self ..) _⟩)
      fun other member => (others other (made.sent_subset member)).imp_left fun before => old before
    intro other member
    rcases others other member with before | below
    · rcases List.mem_append.1 before with before | same
      · exact .inl before
      · cases List.mem_singleton.1 same
        exact .inr ⟨(refines.whole rfl).trans (shown _ (List.mem_cons_self ..) _), refines.labels⟩
    · exact .inr below

/-- When the labels and the made-up names show what the code does, the statements of each block
mean what its name shows. -/
theorem Made.exact (negates : meant.Negates) (made : Made stem done ledger blocks last later)
    (reached : ∀ block ∈ later.sent, ∀ statement ∈ block.continuation.remaining,
      AllReached statement)
    (solved : ∀ block ∈ later.sent, block.Solved stem meant shows)
    (exact : ∀ block ∈ ledger.sent, block.Exact meant shows) :
    ∀ block ∈ blocks, ∀ fallThrough,
      meaning meant (leading shows fallThrough) block.statements = shows block.name := by
  induction made with
  | stops => nofun
  | @makes done last ledger between later block out others waits placed made ih =>
    have member := List.mem_of_getElem? waits
    have here := exact block member
    obtain ⟨first, new⟩ := placed.exact negates
      (reached block (made.sent_subset (placed.grows.sent_subset member))) here.labels
      (fun name start => by
        cases start
        exact here.whole)
      fun other before => solved other (made.sent_subset before)
    rw [List.forall_mem_cons]
    constructor
    · intro fallThrough
      rw [meaning_leading (placed.closed rfl) fallThrough block.fallThrough, first rfl]
      exact here.whole.symm
    · exact ih reached solved fun other before => (new other before).elim (exact other) id

end Made

section Targets

variable {exitLabel : String} {body : List Stmt} {blocks : List LabeledBlock}

theorem find_named {α : Type} {name : α → String} {list : List α} {item : α}
    (distinct : (list.map name).Nodup) (member : item ∈ list) :
    list.find? (fun other => name other == name item) = some item := by
  cases found : list.find? (fun other => name other == name item) with
  | none => exact absurd (beq_self_eq_true _) (List.find?_eq_none.1 found item member)
  | some other =>
    have same : name other = name item := by simpa using List.find?_some found
    exact congrArg some
      (List.inj_on_of_nodup_map distinct (List.mem_of_find?_eq_some found) member same)

theorem lookup_named {α : Type} {list : List (String × α)} {item : String × α}
    (distinct : (list.map Prod.fst).Nodup) (member : item ∈ list) :
    list.lookup item.1 = some item.2 := by
  cases found : list.lookup item.1 with
  | none => exact absurd (List.lookup_eq_none_iff.1 found item member) (by simp)
  | some value =>
    obtain ⟨front, back, rfl, _⟩ := List.lookup_eq_some_iff.1 found
    have same := List.inj_on_of_nodup_map distinct
      (List.mem_append_right _ (List.mem_cons_self ..)) member rfl
    rw [← same]

theorem dispatched_exit : (dispatched exitLabel blocks).target exitLabel = .ended .left :=
  if_pos rfl

theorem structured_exit : (structured exitLabel body).target exitLabel = .ended .left :=
  if_pos rfl

theorem dispatched_block {block : LabeledBlock} (distinct : (blocks.map LabeledBlock.name).Nodup)
    (member : block ∈ blocks) (apart : block.name ≠ exitLabel) :
    (dispatched exitLabel blocks).target block.name = .runs block.statements [] := by
  dsimp only [dispatched]
  rw [if_neg apart, find_named distinct member]

theorem structured_place {place : String × Point} (distinct : ((places [] body).map Prod.fst).Nodup)
    (member : place ∈ places [] body) (apart : place.1 ≠ exitLabel) :
    (structured exitLabel body).target place.1 = place.2 := by
  dsimp only [structured]
  rw [if_neg apart, lookup_named distinct member]
  rfl

theorem places_labels (meant : Interpretation σ) (exits : Exits σ) (body : List Stmt) :
    (places [] body).map Prod.fst = labels body := by
  have same : ((places [] body).map (shownAt meant exits)).map Prod.fst = labels body := by
    rw [← entries_eq_places, entries_labels]
  rwa [List.map_map] at same

/-- The statements of a block do not run off their end. -/
theorem meaning_dispatched {block : LabeledBlock} (closed : fallsThrough block.statements = false)
    (fallThrough : String) : (Point.runs block.statements []).meaning meant
        ((dispatched exitLabel blocks).exits shows) =
      meaning meant (leading shows fallThrough) block.statements := by
  have same : meaning meant { leading shows fallThrough with falls := ends .stray }
      block.statements = meaning meant (leading shows fallThrough) block.statements :=
    meaning_of_closed closed
  exact same

/-- Gotos of a dispatch machine lead to where no more is shown, if the blocks do. -/
theorem dispatched_lands (exit : ends .left ≤ shows exitLabel)
    (closed : ∀ block ∈ blocks, fallsThrough block.statements = false)
    (shown : ∀ block ∈ blocks, ∀ fallThrough,
      meaning meant (leading shows fallThrough) block.statements ≤ shows block.name)
    (lost : ∀ target, target ≠ exitLabel → target ∉ blocks.map LabeledBlock.name →
      ends (.lost target) ≤ shows target) (target : String) :
    ((dispatched exitLabel blocks).target target).meaning meant
      ((dispatched exitLabel blocks).exits shows) ≤ shows target := by
  by_cases leaves : target = exitLabel
  · rw [leaves, dispatched_exit]
    exact exit
  · dsimp only [dispatched]
    rw [if_neg leaves]
    cases found : blocks.find? fun block => block.name == target with
    | none =>
      refine lost target leaves fun member => ?_
      obtain ⟨block, inside, named⟩ := List.mem_map.1 member
      exact List.find?_eq_none.1 found block inside (beq_iff_eq.2 named)
    | some block =>
      have member := List.mem_of_find?_eq_some found
      have named : block.name = target := by simpa using List.find?_some found
      rw [← named]
      exact (meaning_dispatched (closed block member) block.name).le.trans
        (shown block member block.name)

/-- Gotos of a body lead to where no more is shown, if its labels do. -/
theorem structured_lands (exit : ends .left ≤ shows exitLabel)
    (shown : ∀ entry ∈ entries meant ((structured exitLabel body).exits shows) body,
      entry.2 ≤ shows entry.1)
    (lost : ∀ target, target ≠ exitLabel → target ∉ labels body →
      ends (.lost target) ≤ shows target) (target : String) :
    ((structured exitLabel body).target target).meaning meant
      ((structured exitLabel body).exits shows) ≤ shows target := by
  by_cases leaves : target = exitLabel
  · rw [leaves, structured_exit]
    exact exit
  · rw [entries_eq_places] at shown
    dsimp only [structured]
    rw [if_neg leaves]
    cases found : (places [] body).lookup target with
    | none =>
      refine lost target leaves fun member => ?_
      rw [← places_labels meant ((structured exitLabel body).exits shows)] at member
      obtain ⟨place, inside, rfl⟩ := List.mem_map.1 member
      exact absurd (List.lookup_eq_none_iff.1 found place inside) (by simp)
    | some point =>
      obtain ⟨front, back, same, _⟩ := List.lookup_eq_some_iff.1 found
      have member : (target, point) ∈ places [] body := by
        rw [same]
        exact List.mem_append_right _ (List.mem_cons_self ..)
      exact shown _ (List.mem_map_of_mem member)

end Targets

section Solution

theorem Pending.meaning_mono {shows' : String → Sights σ} (below : shows ≤ shows') (block : Pending) :
    block.meaning meant shows ≤ block.meaning meant shows' := by
  have under : (leading shows block.fallThrough).Under (leading shows' block.fallThrough) :=
    ⟨below _, le_rfl, le_rfl, below⟩
  exact under.meaning_le block.continuation.due

/-- What a name shows: what is known of it, or what the block means that waits under it. -/
def resolve (meant : Interpretation σ) (known : String → Option (Sights σ)) (sent : List Pending)
    (shows : String → Sights σ) (name : String) : Sights σ :=
  (known name).getD (match sent.find? fun block => block.name == name with
    | some block => block.meaning meant shows
    | none => ends (.lost name))

theorem resolve_mono (known : String → Option (Sights σ)) (sent : List Pending) :
    Monotone (resolve meant known sent) := by
  intro shows shows' below name
  unfold resolve
  cases known name with
  | some value => exact le_rfl
  | none =>
    cases sent.find? fun block => block.name == name with
    | some block => exact block.meaning_mono below
    | none => exact le_rfl

/-- Whatever is known of some names, the others can show what their blocks mean. -/
theorem exists_resolved (meant : Interpretation σ) (known : String → Option (Sights σ))
    {sent : List Pending} (distinct : (sent.map Pending.name).Nodup) :
    ∃ shows, (∀ name value, known name = some value → shows name = value) ∧
      (∀ block ∈ sent, known block.name = none →
        shows block.name = block.meaning meant shows) ∧
      ∀ name, known name = none → name ∉ sent.map Pending.name → shows name = ends (.lost name) := by
  let equation : (String → Sights σ) →o (String → Sights σ) :=
    ⟨resolve meant known sent, resolve_mono known sent⟩
  have solves (name : String) :
      equation.lfp name = resolve meant known sent equation.lfp name :=
    (congrFun equation.map_lfp name).symm
  refine ⟨equation.lfp, fun name value found => ?_, fun block member unknown => ?_,
    fun name unknown absent => ?_⟩
  · rw [solves, resolve, found]
    rfl
  · rw [solves, resolve, unknown, find_named distinct member]
    rfl
  · have missing : (sent.find? fun block => block.name == name) = none := by
      rw [List.find?_eq_none]
      intro block member named
      exact absent (List.mem_map.2 ⟨block, member, beq_iff_eq.1 named⟩)
    rw [solves, resolve, unknown, missing]
    rfl

end Solution

section Preserved

variable {options : Options} {body : List Stmt} {blocks : List LabeledBlock} {later : Ledger}

/-- Code that only has gotos to known names means the same whatever the others show. -/
theorem sameMeaning_of_known {known : String → Prop} {exits exits' : Exits σ} {code : List Stmt}
    (targets : ∀ target ∈ gotoTargets code, known target) (falls : exits.falls = exits'.falls)
    (breaks : exits.breaks = exits'.breaks) (continues : exits.continues = exits'.continues)
    (goto : ∀ target, known target → exits.goto target = exits'.goto target) :
    SameMeaning meant code code exits exits' := by
  have agree : ∀ statement ∈ code, statement.Agrees exits exits' := fun statement member =>
    ⟨fun _ => breaks, fun _ => continues, fun target inside =>
      goto target (targets target (mem_gotoTargets.2 ⟨statement, member, inside⟩))⟩
  exact ⟨meaning_congr falls agree, entries_congr falls agree⟩

/-- No block is named by the exit label. -/
theorem Made.apart (accepted : Accepted options body)
    (made : Made options.anonymousPrefix 0 (entryLedger options body) blocks later.sent.length later) :
    ∀ name ∈ later.names, name ≠ options.exitLabel := by
  rintro name member rfl
  rcases (made.bound_iff accepted _).1 member with declared | ⟨index, _, same⟩
  · exact accepted.exit_undeclared declared
  · exact accepted.exit index same

/-- Each name of a block shows what the statements of the block mean. -/
theorem Made.shownFrom_block (accepted : Accepted options body)
    (made : Made options.anonymousPrefix 0 (entryLedger options body) blocks later.sent.length later) :
    ∀ block ∈ blocks, ∀ fallThrough, (dispatched options.exitLabel blocks).shownFrom meant block.name =
      meaning meant (leading ((dispatched options.exitLabel blocks).shownFrom meant) fallThrough)
        block.statements := by
  intro block member fallThrough
  have distinct : (blocks.map LabeledBlock.name).Nodup := by
    rw [made.names]
    exact (made.steady (steady_entry accepted)).distinct
  have apart : block.name ≠ options.exitLabel :=
    made.apart accepted _ (made.names ▸ List.mem_map_of_mem member)
  have starts := dispatched_block distinct member apart
  rw [← meaning_dispatched (made.closed block member) fallThrough, ← starts]
  exact shown_eq_meaning _

/-- What the body shows, its blocks show. -/
theorem Made.structured_le (negates : meant.Negates) (accepted : Accepted options body)
    (made : Made options.anonymousPrefix 0 (entryLedger options body) blocks later.sent.length later)
    (reached : ∀ block ∈ later.sent, ∀ statement ∈ block.continuation.remaining,
      AllReached statement)
    (declared : ∀ target ∈ gotoTargets body, target ∈ Script.labels body ∨ target = options.exitLabel) :
    (structured options.exitLabel body).shown meant (.runs body []) ≤
        (dispatched options.exitLabel blocks).shownFrom meant
          (Mint.nameAt options.anonymousPrefix 0) ∧
      ∀ label ∈ Script.labels body, (structured options.exitLabel body).shownFrom meant label ≤
        (dispatched options.exitLabel blocks).shownFrom meant label := by
  classical
  let shows := (dispatched options.exitLabel blocks).shownFrom meant
  have exit : shows options.exitLabel = ends .left :=
    (congrArg ((dispatched options.exitLabel blocks).shown meant) dispatched_exit).trans
      (shown_ended .left)
  have shown : ∀ block ∈ blocks, ∀ fallThrough,
      meaning meant (leading shows fallThrough) block.statements ≤ shows block.name :=
    fun block member fallThrough => (made.shownFrom_block accepted block member fallThrough).ge
  have entry : Pending.Below meant shows
      ⟨.ofBlock body, Mint.nameAt options.anonymousPrefix 0, options.exitLabel⟩ :=
    (made.refines negates rfl reached shown _
      (made.sent_subset (List.mem_singleton_self _))).resolve_left nofun
  have whole := entry.whole
  have inside := entry.labels
  rw [Pending.meaning_ofBlock] at whole
  rw [Pending.entries_ofBlock] at inside
  -- a goto to nowhere is lost in the body, though it may hit upon a made-up name in the blocks
  let known (name : String) : Prop := name ∈ Script.labels body ∨ name = options.exitLabel
  let goto (name : String) : Sights σ := if known name then shows name else ends (.lost name)
  have agrees (name : String) (holds : known name) : goto name = shows name := if_pos holds
  have unchanged : SameMeaning meant body body ((structured options.exitLabel body).exits goto)
      (leading shows options.exitLabel) :=
    sameMeaning_of_known declared exit.symm rfl rfl agrees
  have lands : ∀ target, ((structured options.exitLabel body).target target).meaning meant
      ((structured options.exitLabel body).exits goto) ≤ goto target := by
    refine structured_lands ?_ ?_ fun target leaves undeclared =>
      (if_neg (not_or.2 ⟨undeclared, leaves⟩)).ge
    · rw [agrees _ (.inr rfl), exit]
    · intro label member
      have declares : label.1 ∈ (entries meant _ body).map Prod.fst := List.mem_map_of_mem member
      rw [entries_labels] at declares
      rw [unchanged.entries] at member
      rw [agrees _ (.inl declares)]
      exact inside label member
  constructor
  · calc (structured options.exitLabel body).shown meant (.runs body [])
        ≤ meaning meant ((structured options.exitLabel body).exits goto) body := shown_le lands _
      _ = meaning meant (leading shows options.exitLabel) body := unchanged.meaning
      _ ≤ shows (Mint.nameAt options.anonymousPrefix 0) := whole
  · intro label member
    calc (structured options.exitLabel body).shownFrom meant label
        ≤ ((structured options.exitLabel body).target label).meaning meant
            ((structured options.exitLabel body).exits goto) := shown_le lands _
      _ ≤ goto label := lands label
      _ = shows label := agrees label (.inl member)

/-- What the blocks show, the body shows. -/
theorem Made.dispatched_le (negates : meant.Negates) (accepted : Accepted options body)
    (made : Made options.anonymousPrefix 0 (entryLedger options body) blocks later.sent.length later)
    (reached : ∀ block ∈ later.sent, ∀ statement ∈ block.continuation.remaining,
      AllReached statement)
    (declared : ∀ target ∈ gotoTargets body,
      target ∈ Script.labels body ∨ target = options.exitLabel) :
    (dispatched options.exitLabel blocks).shownFrom meant (Mint.nameAt options.anonymousPrefix 0) ≤
        (structured options.exitLabel body).shown meant (.runs body []) ∧
      ∀ label ∈ Script.labels body, (dispatched options.exitLabel blocks).shownFrom meant label ≤
        (structured options.exitLabel body).shownFrom meant label := by
  classical
  have distinct := (made.steady (steady_entry accepted)).distinct
  let known (name : String) : Option (Sights σ) :=
    if name ∈ Script.labels body ∨ name = options.exitLabel then
      some ((structured options.exitLabel body).shownFrom meant name)
    else none
  obtain ⟨shows, agrees, solves, lost⟩ := exists_resolved meant known distinct
  have agrees {name : String} (holds : name ∈ Script.labels body ∨ name = options.exitLabel) :
      shows name = (structured options.exitLabel body).shownFrom meant name :=
    agrees name _ (if_pos holds)
  have exit : shows options.exitLabel = ends .left :=
    (agrees (.inr rfl)).trans
      ((congrArg ((structured options.exitLabel body).shown meant) structured_exit).trans
        (shown_ended .left))
  have solved : ∀ block ∈ later.sent, block.Solved options.anonymousPrefix meant shows := by
    intro block member index named
    refine solves block member (if_neg ?_)
    rintro (label | leaves)
    · exact accepted.named label index named
    · exact accepted.exit index (leaves.symm.trans named)
  have unchanged : SameMeaning meant body body (leading shows options.exitLabel)
      ((structured options.exitLabel body).exits
        ((structured options.exitLabel body).shownFrom meant)) :=
    sameMeaning_of_known declared exit rfl rfl fun target => agrees
  have entry : Pending.Exact meant shows
      ⟨.ofBlock body, Mint.nameAt options.anonymousPrefix 0, options.exitLabel⟩ := by
    refine ⟨solved _ (made.sent_subset (List.mem_singleton_self _)) 0 rfl, ?_⟩
    rw [Pending.entries_ofBlock, unchanged.entries, entries_eq_places]
    intro label member
    obtain ⟨place, inside, rfl⟩ := List.mem_map.1 member
    have labels := places_labels meant (leading shows options.exitLabel) body
    have declares : place.1 ∈ Script.labels body := labels ▸ List.mem_map_of_mem inside
    have apart : place.1 ≠ options.exitLabel := fun same =>
      accepted.exit_undeclared (same ▸ declares)
    have starts := structured_place (labels.symm ▸ accepted.distinct) inside apart
    calc shows place.1
        = (structured options.exitLabel body).shownFrom meant place.1 := agrees (.inl declares)
      _ = (structured options.exitLabel body).shown meant place.2 := congrArg _ starts
      _ = _ := shown_eq_meaning place.2
  have whole := entry.whole
  rw [Pending.meaning_ofBlock] at whole
  have shown := made.exact negates reached solved fun block member => by
    cases List.mem_singleton.1 member
    exact entry
  have lands := dispatched_lands exit.ge made.closed
    (fun block member fallThrough => (shown block member fallThrough).le)
    fun target leaves absent => by
      rw [made.names] at absent
      have unknown : known target = none := if_neg (not_or.2
        ⟨fun label => absent ((made.bound_iff accepted target).2 (.inl label)), leaves⟩)
      exact (lost target unknown absent).ge
  have covers (name : String) :
      (dispatched options.exitLabel blocks).shownFrom meant name ≤ shows name :=
    (shown_le lands _).trans (lands name)
  constructor
  · calc (dispatched options.exitLabel blocks).shownFrom meant (Mint.nameAt options.anonymousPrefix 0)
        ≤ shows (Mint.nameAt options.anonymousPrefix 0) := covers _
      _ = meaning meant (leading shows options.exitLabel) body := whole
      _ = meaning meant ((structured options.exitLabel body).exits
            ((structured options.exitLabel body).shownFrom meant)) body := unchanged.meaning
      _ = (structured options.exitLabel body).shown meant (.runs body []) :=
        (shown_eq_meaning (.runs body [])).symm
  · intro label member
    exact (covers label).trans (agrees (.inl member)).le

/-- The blocks show what the body shows, from the first block and from each label. -/
theorem Flattened.shown_eq (flattened : Flattened options body blocks) (negates : meant.Negates)
    (declared : ∀ target ∈ gotoTargets body,
      target ∈ labels body ∨ target = options.exitLabel)
    (reached : ∀ statement ∈ body, AllReached statement) :
    (structured options.exitLabel body).shown meant (.runs body []) =
        (dispatched options.exitLabel blocks).shown meant (entryPoint blocks) ∧
      ∀ label ∈ labels body, (structured options.exitLabel body).shownFrom meant label =
        (dispatched options.exitLabel blocks).shownFrom meant label := by
  cases flattened with
  | nothing accepted =>
    refine ⟨?_, nofun⟩
    let entry : LabeledBlock := ⟨Mint.nameAt options.anonymousPrefix 0, [.goto options.exitLabel]⟩
    let machine := dispatched options.exitLabel [entry]
    have exits : machine.shown meant (machine.target options.exitLabel) = ends .left :=
      (congrArg (machine.shown meant) dispatched_exit).trans (shown_ended .left)
    funext state
    calc (structured options.exitLabel []).shown meant (.runs [] []) state
        = ends .left state := congrFun ((shown_nil []).trans (shown_ended .left)) state
      _ = machine.shown meant (machine.target options.exitLabel) state := (congrFun exits state).symm
      _ = machine.shown meant (entryPoint [entry]) state := (shown_runs entry.statements [] state).symm
  | @something body blocks later accepted made =>
    have waiting := (made.carries carried_allReached (fun _ _ => trivial) (fun _ _ => trivial)
      (entry_holds reached)).2
    have below := made.structured_le negates accepted (fun block member => (waiting block member).code)
      declared
    have above := made.dispatched_le negates accepted (fun block member => (waiting block member).code)
      declared
    have distinct : (blocks.map LabeledBlock.name).Nodup := by
      rw [made.names]
      exact (made.steady (steady_entry accepted)).distinct
    have starts : (dispatched options.exitLabel blocks).target
        (Mint.nameAt options.anonymousPrefix 0) = entryPoint blocks := by
      have first := made.first
      rw [← made.names] at first
      cases blocks with
      | nil => cases first
      | cons entry others =>
        have named : entry.name = Mint.nameAt options.anonymousPrefix 0 := Option.some.inj first
        rw [← named]
        exact dispatched_block distinct (List.mem_cons_self ..)
          (named ▸ (accepted.exit 0).symm)
    rw [Program.shownFrom, starts] at below above
    exact ⟨below.1.antisymm above.1, fun label member =>
      (below.2 label member).antisymm (above.2 label member)⟩

/-- A run of the blocks as a dispatch machine goes through the same states as a run of the body as
it is written, and ends in the same way, from the first block and from each label. Gotos must lead
to labels or to the exit. No switch in a loop that contains labels may hold a continue of that loop,
and no initializer of a `for` loop in it a jump of that loop: redirecting enters neither. A jump that
belongs to nothing is stray on both sides. -/
theorem shows_of_flatten (success : flatten options body = .ok blocks)
    (declared : ∀ target ∈ gotoTargets body,
      target ∈ labels body ∨ target = options.exitLabel)
    (reached : ∀ loop ∈ nodes body, ∀ head loopBody, loop.containsLabels = true →
      loopOf loop = some (head, loopBody) → Reached loopBody)
    (negates : meant.Negates) (state : σ) (sight : Sight σ) :
    ((structured options.exitLabel body).Shows meant (.runs body []) state sight ↔
        (dispatched options.exitLabel blocks).Shows meant (entryPoint blocks) state sight) ∧
      ∀ label ∈ labels body,
        ((structured options.exitLabel body).Shows meant
            ((structured options.exitLabel body).target label) state sight ↔
          (dispatched options.exitLabel blocks).Shows meant
            ((dispatched options.exitLabel blocks).target label) state sight) := by
  have all : ∀ statement ∈ body, AllReached statement := fun statement member loop below =>
    reached loop (mem_nodes.2 ⟨statement, member, below⟩)
  obtain ⟨first, others⟩ := (flattened_of_flatten success).shown_eq negates declared all
  exact ⟨Set.ext_iff.1 (congrFun first state) sight, fun label member =>
    Set.ext_iff.1 (congrFun (others label member) state) sight⟩

/-- Whether an expression holds, when all do or none but for their negations. -/
def truth (holds : Bool) : Expr → Bool
  | .unary "!" operand => !truth holds operand
  | _ => holds

/-- Every expression counts, and holds until two have run, unless it is negated. -/
def tallying : Interpretation Nat where
  evaluate value count := (truth (count < 2) value, count + 1)
  select _ _ count := (none, count)
  declare _ _ _ count := count

theorem tallying_negates : tallying.Negates := fun _ _ => rfl

/-- The loop runs once, and then control jumps back into it. -/
theorem shows_of_flatten_reenteredLoop :
    (dispatched "$exit" [
      ⟨"$sm0", [.ifThen (.negate (.identifier "more")) [.goto "$sm1"], .goto "L"]⟩,
      ⟨"L", [.expression (.identifier "work"), .goto "$sm0"]⟩, ⟨"$sm1", [.goto "L"]⟩]).Shows tallying
        (.runs [.ifThen (.negate (.identifier "more")) [.goto "$sm1"], .goto "L"] []) 0
        ⟨[1, 2, 3, 4], none⟩ := by
  have declared : ∀ target ∈ gotoTargets reenteredLoop,
      target ∈ labels reenteredLoop ∨ target = Options.standard.exitLabel := by
    simp [reenteredLoop, Stmt.gotoTargets_children (.whileLoop _ _),
      Stmt.labels_children (.whileLoop _ _), Stmt.children, Stmt.ownTarget, Stmt.ownLabel]
  have reached : ∀ loop ∈ nodes reenteredLoop, ∀ head loopBody, loop.containsLabels = true →
      loopOf loop = some (head, loopBody) → Reached loopBody := by
    intro loop member head loopBody labeled isLoop statement inBody jump
    simp only [reenteredLoop, nodes_cons, nodes_nil, Stmt.nodes_children, Stmt.children,
      List.append_nil, List.cons_append, List.nil_append, List.mem_cons, List.not_mem_nil,
      or_false] at member
    rcases member with rfl | rfl | rfl | rfl <;> cases isLoop
    cases List.mem_singleton.1 inBody
    simp [hidden_eq, bindsJumps, Stmt.kind, Stmt.children]
  have written : (structured "$exit" reenteredLoop).Shows tallying (.runs reenteredLoop []) 0
      ⟨[1, 2, 3, 4], none⟩ :=
    .later rfl (.silent rfl (.later rfl (.silent rfl (.silent rfl (.later rfl (.silent rfl
      (.silent rfl (.now rfl))))))))
  exact (shows_of_flatten flatten_reenteredLoop declared reached tallying_negates 0 _).1.1 written

end Preserved

end Unnest.Flatten
