import Unnest.Proofs.Flatten.Equivariant
import Unnest.Proofs.Flatten.Failures
import Unnest.Proofs.Flatten.Free
import Unnest.Proofs.Flatten.Verified

/-! Flattening sees which names are the same and never how they are spelled: with other labels,
another exit label and another prefix the blocks are the same up to these names. -/

namespace Unnest.Flatten
open Script

/-- How the names of a run change with the options and with the labels: the exit label becomes the
other exit label, the prefix of a made-up name the other prefix, and a label its new name. -/
def Options.renaming (options options' : Options) (rename : String → String) (name : String) :
    String :=
  if name = options.exitLabel then options'.exitLabel
  else if options.startsAnonymous name then
    options'.anonymousPrefix ++
      String.ofList (name.toList.drop options.anonymousPrefix.toList.length)
  else rename name

/-- New names for the labels of a body that jumps to these labels only. The labels stay apart from
each other and, under their old and their new names, from the names that a run makes up. -/
structure Renames (options options' : Options) (rename : String → String) (body : List Stmt) :
    Prop where
  valid : options.validate = .ok ()
  valid' : options'.validate = .ok ()
  apart : ∀ first ∈ labels body, ∀ second ∈ labels body, rename first = rename second → first = second
  unreserved : ∀ label ∈ labels body, options.isReserved label = false
  unreserved' : ∀ label ∈ labels body, options'.isReserved (rename label) = false
  declared : ∀ target ∈ gotoTargets body, target ∈ labels body

/-- The names that can occur in a run. -/
inductive Occurs (options : Options) (body : List Stmt) : String → Prop where
  | exit : Occurs options body options.exitLabel
  | madeUp (index : Nat) : Occurs options body (Mint.nameAt options.anonymousPrefix index)
  | label {label : String} (declared : label ∈ labels body) : Occurs options body label

/-- No number begins with this. -/
theorem nameAt_ne_marked (stem text : String) (index : Nat) :
    Mint.nameAt stem index ≠ stem ++ ("x" ++ text) := by
  intro same
  have number : toString index = "x" ++ text := (String.append_right_inj stem).1 same
  have digits : Nat.toDigits 10 index = 'x' :: text.toList := by
    rw [← Nat.toList_repr, ← Nat.toString_eq_repr, number, String.toList_append]
    rfl
  have digit := Nat.isDigit_of_mem_toDigits (by decide) (by decide)
    (digits ▸ List.mem_cons_self .. : 'x' ∈ Nat.toDigits 10 index)
  exact absurd digit (by decide)

section Renaming

variable {options options' : Options} {rename : String → String}

theorem renaming_exit : options.renaming options' rename options.exitLabel = options'.exitLabel :=
  if_pos rfl

theorem renaming_nameAt (valid : options.validate = .ok ()) (index : Nat) :
    options.renaming options' rename (Mint.nameAt options.anonymousPrefix index) =
      Mint.nameAt options'.anonymousPrefix index := by
  rw [Options.renaming, if_neg (exit_ne_nameAt valid index).symm,
    if_pos (startsAnonymous_nameAt options index)]
  have number : (Mint.nameAt options.anonymousPrefix index).toList.drop
      options.anonymousPrefix.toList.length = (toString index).toList := by
    rw [Mint.nameAt, String.toList_append, List.drop_left]
  rw [number, String.ofList_toList]
  rfl

theorem renaming_of_unreserved {label : String} (unreserved : options.isReserved label = false) :
    options.renaming options' rename label = rename label := by
  rw [Options.isReserved, Bool.or_eq_false_iff, beq_eq_false_iff_ne] at unreserved
  rw [Options.renaming, if_neg unreserved.1, if_neg (Bool.eq_false_iff.1 unreserved.2)]

end Renaming

/-- The label of the body that has got the name. -/
def formerLabel (rename : String → String) (body : List Stmt) (name : String) : String :=
  ((labels body).find? fun label => rename label == name).getD name

section Renames

variable {options options' : Options} {rename : String → String} {body : List Stmt}
  (renames : Renames options options' rename body)
include renames

theorem Renames.formerLabel_rename {label : String} (declared : label ∈ labels body) :
    formerLabel rename body (rename label) = label := by
  have some : ((labels body).find? fun other => rename other == rename label).isSome = true :=
    List.find?_isSome.2 ⟨label, declared, beq_self_eq_true _⟩
  obtain ⟨found, first⟩ := Option.isSome_iff_exists.1 some
  have same : rename found = rename label := by simpa using List.find?_some first
  rw [formerLabel, first]
  exact renames.apart found (List.mem_of_find?_eq_some first) label declared same

/-- The renaming of the names of a run can be undone. -/
theorem Renames.renaming_back {name : String} (occurs : Occurs options body name) :
    options'.renaming options (formerLabel rename body) (options.renaming options' rename name) =
      name := by
  cases occurs with
  | exit => rw [renaming_exit, renaming_exit]
  | madeUp index => rw [renaming_nameAt renames.valid, renaming_nameAt renames.valid']
  | label declared =>
    rw [renaming_of_unreserved (renames.unreserved _ declared),
      renaming_of_unreserved (renames.unreserved' _ declared), renames.formerLabel_rename declared]

/-- The names of a run never become names of this form. -/
theorem Renames.unmarked {name : String} (occurs : Occurs options body name) (text : String) :
    options.renaming options' rename name ≠ options'.anonymousPrefix ++ ("x" ++ text) := by
  have marked := startsAnonymous_append options' ("x" ++ text)
  cases occurs with
  | exit =>
    rw [renaming_exit]
    intro same
    have plain := startsAnonymous_exit renames.valid'
    rw [same, marked] at plain
    cases plain
  | madeUp index =>
    rw [renaming_nameAt renames.valid]
    exact nameAt_ne_marked _ _ _
  | label declared =>
    have unreserved := renames.unreserved' _ declared
    rw [renaming_of_unreserved (renames.unreserved _ declared)]
    intro same
    rw [same, Options.isReserved, marked, Bool.or_true] at unreserved
    cases unreserved

end Renames

open Classical in
/-- A renaming of all names that agrees on those that can occur in a run. The others are marked. -/
noncomputable def Options.extension (options options' : Options) (rename : String → String)
    (body : List Stmt) (name : String) : String :=
  if Occurs options body name then options.renaming options' rename name
  else options'.anonymousPrefix ++ ("x" ++ name)

section Extension

variable {options options' : Options} {rename : String → String} {body : List Stmt}
  {blocks : List LabeledBlock} {fault : FlattenError}

theorem extension_of_occurs {name : String} (occurs : Occurs options body name) :
    options.extension options' rename body name = options.renaming options' rename name :=
  if_pos occurs

theorem Renames.extension_injective (renames : Renames options options' rename body) :
    Function.Injective (options.extension options' rename body) := by
  intro first second same
  unfold Options.extension at same
  split at same
  · next firstOccurs =>
    split at same
    · next secondOccurs =>
      rw [← renames.renaming_back firstOccurs, same, renames.renaming_back secondOccurs]
    · exact absurd same (renames.unmarked firstOccurs second)
  · split at same
    · next secondOccurs => exact absurd same.symm (renames.unmarked secondOccurs first)
    · exact (String.append_right_inj _).1 ((String.append_right_inj _).1 same)

theorem Renames.extension_of_label (renames : Renames options options' rename body)
    {label : String} (declared : label ∈ labels body) :
    options.extension options' rename body label = rename label := by
  rw [extension_of_occurs (.label declared),
    renaming_of_unreserved (renames.unreserved label declared)]

/-- Renaming the body is the same under the extension, which only sees its labels. -/
theorem Renames.reword_body (renames : Renames options options' rename body) :
    reword (.renaming rename) body = reword (.renaming (options.extension options' rename body)) body := by
  have agree : ∀ label ∈ labels body,
      rename label = options.extension options' rename body label :=
    fun label declared => (renames.extension_of_label declared).symm
  exact reword_renaming_congr agree fun target goes => agree target (renames.declared target goes)

theorem Renames.reword_block (renames : Renames options options' rename body)
    (success : flatten options body = .ok blocks) : ∀ block ∈ blocks,
      block.reword (.renaming (options.extension options' rename body)) =
        block.reword (.renaming (options.renaming options' rename)) := by
  intro block member
  obtain ⟨accepted, final, ran⟩ := flatten_ok_iff.1 success
  have flattened := flattened_of_flatten success
  have produced (name : String) (inside : name ∈ blocks.map LabeledBlock.name) :
      Occurs options body name := by
    rcases (mem_names_iff accepted ran name).1 inside with declared | ⟨index, _, rfl⟩
    · exact .label declared
    · exact .madeUp index
  have named : options.extension options' rename body block.name =
      options.renaming options' rename block.name :=
    extension_of_occurs (produced block.name (List.mem_map_of_mem member))
  have inside : reword (.renaming (options.extension options' rename body)) block.statements =
      reword (.renaming (options.renaming options' rename)) block.statements := by
    refine reword_renaming_congr ?_ ?_
    · rw [flattened.free block member]
      nofun
    · intro target goes
      apply extension_of_occurs
      rcases flattened.output.targets block member target goes with rfl | name | ofBody
      · exact .exit
      · exact produced target name
      · exact .label (renames.declared target ofBody)
  exact congrArg₂ LabeledBlock.mk named inside

/-- The label that a failure is about is one of the body. -/
theorem Renames.reword_fault (renames : Renames options options' rename body)
    (warranted : Warranted options body fault) :
    fault.reword (.renaming (options.extension options' rename body)) =
      fault.reword (.renaming rename) := by
  cases fault with
  | reservedLabel label => exact congrArg FlattenError.reservedLabel (renames.extension_of_label warranted.1)
  | repeatedLabel label =>
    have twice : 2 ≤ (labels body).count label := warranted
    have declared : label ∈ labels body := List.count_pos_iff.1 (by omega)
    exact congrArg FlattenError.repeatedLabel (renames.extension_of_label declared)
  | labelInSwitch label =>
    obtain ⟨discriminant, cases, member, first⟩ := warranted
    have declared : label ∈ labels body :=
      labels_subset_of_node member (List.mem_of_head? first)
    exact congrArg FlattenError.labelInSwitch (renames.extension_of_label declared)
  | duplicateLabel label => exact warranted.elim
  | _ => rfl

end Extension

/-- With renamed labels and under other options a body flattens to the blocks that it has anyway,
with their names and the targets of their gotos renamed, or fails for the same reason. There are
no other names: flattened blocks hold no labels. -/
theorem flatten_renamed {options options' : Options} {rename : String → String} {body : List Stmt}
    (renames : Renames options options' rename body) :
    flatten options' (reword (.renaming rename) body) =
      ((flatten options body).map
        (List.map (LabeledBlock.reword (.renaming (options.renaming options' rename))))).mapError
          (FlattenError.reword (.renaming rename)) := by
  have exit : options.extension options' rename body options.exitLabel = options'.exitLabel := by
    rw [extension_of_occurs .exit, renaming_exit]
  have minting (index : Nat) : options.extension options' rename body
      (Mint.nameAt options.anonymousPrefix index) = Mint.nameAt options'.anonymousPrefix index := by
    rw [extension_of_occurs (.madeUp index), renaming_nameAt renames.valid]
  have checked : precheck options' (reword (.renaming (options.extension options' rename body)) body) =
      (precheck options body).mapError
        (FlattenError.reword (.renaming (options.extension options' rename body))) := by
    unfold precheck
    rw [renames.valid, renames.valid', labels_reword]
    refine checkLabels_reword renames.extension_injective [] renames.unreserved ?_
    intro label declared
    have named : (Rewording.renaming (options.extension options' rename body)).name label =
      rename label := renames.extension_of_label declared
    rw [named, renames.unreserved' label declared]
  rw [renames.reword_body, flatten_reword renames.extension_injective exit minting checked]
  cases result : flatten options body with
  | ok blocks => exact congrArg Except.ok (List.map_congr_left (renames.reword_block result))
  | error fault => exact congrArg Except.error (renames.reword_fault (warranted_of_error result))

/-- A loop around a label, and a jump back into it. -/
def reenteredLoop : List Stmt :=
  [.whileLoop (.identifier "more") [.labeled "L" (.expression (.identifier "work"))], .goto "L"]

theorem flatten_reenteredLoop : flatten .standard reenteredLoop = .ok [
    ⟨"$sm0", [.ifThen (.negate (.identifier "more")) [.goto "$sm1"], .goto "L"]⟩,
    ⟨"L", [.expression (.identifier "work"), .goto "$sm0"]⟩, ⟨"$sm1", [.goto "L"]⟩] := by cbv

theorem renames_reenteredLoop :
    Renames .standard ⟨"done", "part"⟩ ("to" ++ ·) reenteredLoop := by
  have declared : labels reenteredLoop = ["L"] := by
    simp [reenteredLoop, Stmt.labels_children (.whileLoop _ _), Stmt.children, Stmt.ownLabel]
  have targets : gotoTargets reenteredLoop = ["L"] := by
    simp [reenteredLoop, Stmt.gotoTargets_children (.whileLoop _ _), Stmt.children, Stmt.ownTarget]
  refine ⟨by decide, by decide, ?_, ?_, ?_, ?_⟩
  · exact fun _ _ _ _ same => (String.append_right_inj _).1 same
  · rw [declared]
    decide
  · rw [declared]
    decide
  · rw [declared, targets]
    exact fun _ member => member

theorem flatten_renamed_reenteredLoop :
    flatten ⟨"done", "part"⟩ (reword (.renaming ("to" ++ ·)) reenteredLoop) = .ok [
      ⟨"part0", [.ifThen (.negate (.identifier "more")) [.goto "part1"], .goto "toL"]⟩,
      ⟨"toL", [.expression (.identifier "work"), .goto "part0"]⟩, ⟨"part1", [.goto "toL"]⟩] := by
  have law := flatten_renamed renames_reenteredLoop
  rw [flatten_reenteredLoop] at law
  exact law

end Unnest.Flatten
