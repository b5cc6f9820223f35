import Unnest.Proofs.Semantics.Jumps
import Unnest.Proofs.Semantics.Meaning

/-! The more is shown where control goes to from code, the more the code shows. Only the exits
count that the code has: the end, the jumps that belong to something around it, and the labels
that its gotos name. -/

namespace Unnest.Script
open Flatten

universe u

variable {σ : Type u} {meant : Interpretation σ} {exits exits' : Exits σ}

/-- The jumps out of the statement lead to where less is shown. -/
def Stmt.Below (statement : Stmt) (exits exits' : Exits σ) : Prop :=
  statement.Jumps (exits.breaks ≤ exits'.breaks) (exits.continues ≤ exits'.continues)
    fun target => exits.goto target ≤ exits'.goto target

/-- What is behind a statement does not matter to its jumps. -/
theorem Stmt.Below.falling {statement : Stmt} {falls falls' : Sights σ}
    (below : statement.Below exits exits') :
    statement.Below { exits with falls := falls } { exits' with falls := falls' } :=
  below

theorem meaning_mono_of {code : List Stmt}
    (each : ∀ statement ∈ code, ∀ {exits exits' : Exits σ}, exits.falls ≤ exits'.falls →
      statement.Below exits exits' → statement.meaning meant exits ≤ statement.meaning meant exits')
    (falls : exits.falls ≤ exits'.falls)
    (below : ∀ statement ∈ code, statement.Below exits exits') :
    meaning meant exits code ≤ meaning meant exits' code := by
  induction code with
  | nil => exact falls
  | cons first rest ih =>
    rw [List.forall_mem_cons] at below
    apply each first (List.mem_cons_self ..) _ below.1.falling
    exact ih (fun statement member => each statement (List.mem_cons_of_mem _ member)) below.2

theorem Stmt.meaning_mono {statement : Stmt} (falls : exits.falls ≤ exits'.falls)
    (below : statement.Below exits exits') :
    statement.meaning meant exits ≤ statement.meaning meant exits' := by
  induction statement using Stmt.childInduction generalizing exits exits' with
  | step parent ih =>
    have all {body : List Stmt} (inside : body ⊆ parent.children)
        (passes : ∀ jump, body ⊆ passing jump parent) :
        Script.meaning meant exits body ≤ Script.meaning meant exits' body :=
      meaning_mono_of (fun child member => ih child (inside member)) falls
        fun child member => below.part (inside member) fun jump => passes jump member
    have loop {body : List Stmt} (inside : body ⊆ parent.children) {again again' : Sights σ}
        (rounds : again ≤ again') : Script.meaning meant (exits.within again) body ≤
          Script.meaning meant (exits'.within again') body :=
      meaning_mono_of (fun child member => ih child (inside member)) rounds
        fun child member => below.within (inside member) falls rounds
    cases parent with
    | block body => exact all (List.Subset.refl _) fun _ => List.Subset.refl _
    | branch test thenBody elseBody =>
      rw [meaning_branch, meaning_branch]
      exact tested_mono (all (List.subset_append_left _ _) fun _ => List.subset_append_left _ _)
        (all (List.subset_append_right _ _) fun _ => List.subset_append_right _ _)
    | whileLoop condition body =>
      exact rounds_mono (fun _ => loop (List.Subset.refl _) le_rfl) falls
    | doLoop body condition =>
      exact loop (List.Subset.refl _) (rounds_mono (fun _ => loop (List.Subset.refl _) le_rfl) falls)
    | forLoop init condition iterator body =>
      have inside : body ⊆ (Stmt.forLoop init condition iterator body).children :=
        List.subset_cons_self _ _
      have first : init ∈ (Stmt.forLoop init condition iterator body).children :=
        List.mem_cons_self ..
      have turns : rounds meant condition iterator
          (fun again => Script.meaning meant (exits.within again) body) exits.falls ≤
        rounds meant condition iterator
          (fun again => Script.meaning meant (exits'.within again) body) exits'.falls :=
        rounds_mono (fun again => loop inside (le_refl again)) falls
      rw [meaning_forLoop, meaning_forLoop]
      exact @ih init first _ _ turns (below.part first fun _ => List.mem_cons_self ..)
    | labeled label body =>
      exact ih body (List.mem_cons_self ..) falls
        (below.part (List.mem_cons_self ..) fun _ => List.mem_cons_self ..)
    | breakJump label =>
      cases label with
      | none => exact below.breaks (escapes_eq ..)
      | some label => exact le_rfl
    | continueJump label =>
      cases label with
      | none => exact below.continues (escapes_eq ..)
      | some label => exact le_rfl
    | goto target => exact below.goto target (by simp)
    | ret value => cases value <;> exact le_rfl
    | throw value => exact le_rfl
    | expression value => exact act_mono falls
    | empty => exact falls
    | switch discriminant cases =>
      intro state
      apply seen_mono
      cases (meant.select discriminant (cases.map Case.test) state).1 with
      | none => exact falls _
      | some clause =>
        dsimp only
        rw [casesMeaning_eq, casesMeaning_eq]
        have inside := clauses_subset cases clause
        have clauses : Script.meaning meant { exits with breaks := exits.falls }
            ((cases.drop clause).flatMap Case.body) ≤
          Script.meaning meant { exits' with breaks := exits'.falls }
            ((cases.drop clause).flatMap Case.body) :=
          meaning_mono_of (fun child member => ih child (inside member)) falls
            fun child member => below.clause (inside member) falls
        exact clauses _
    | function name params body => exact act_mono falls

/-- Code shows more when its exits do. -/
theorem meaning_mono {code : List Stmt} (falls : exits.falls ≤ exits'.falls)
    (below : ∀ statement ∈ code, statement.Below exits exits') :
    meaning meant exits code ≤ meaning meant exits' code :=
  meaning_mono_of (fun _ _ => Stmt.meaning_mono) falls below

theorem below_refl (exits : Exits σ) (statement : Stmt) : statement.Below exits exits :=
  ⟨fun _ => le_rfl, fun _ => le_rfl, fun _ _ => le_rfl⟩

/-- What stands behind a statement matters where control gets behind it. -/
theorem meaning_cons_le {statement : Stmt} {rest rest' : List Stmt}
    (below : statement.fallsThrough = true → meaning meant exits rest ≤ meaning meant exits rest') :
    meaning meant exits (statement :: rest) ≤ meaning meant exits (statement :: rest') := by
  cases falls : statement.fallsThrough with
  | true => exact Stmt.meaning_mono (below falls) (below_refl _ _).falling
  | false =>
    have closed (behind : Sights σ) : statement.meaning meant { exits with falls := behind } =
        statement.meaning meant exits := Stmt.meaning_of_closed falls
    exact ((closed _).trans (closed _).symm).le

/-- More is shown wherever control goes to. -/
structure Exits.Under (exits exits' : Exits σ) : Prop where
  falls : exits.falls ≤ exits'.falls
  breaks : exits.breaks ≤ exits'.breaks
  continues : exits.continues ≤ exits'.continues
  goto : ∀ target, exits.goto target ≤ exits'.goto target

theorem Exits.Under.meaning_le (under : exits.Under exits') (code : List Stmt) :
    meaning meant exits code ≤ meaning meant exits' code :=
  meaning_mono under.falls fun _ _ =>
    ⟨fun _ => under.breaks, fun _ => under.continues, fun target _ => under.goto target⟩

/-- The same label, from which more is shown. -/
structure Raised (entry entry' : String × Sights σ) : Prop where
  label : entry.1 = entry'.1
  shows : entry.2 ≤ entry'.2

theorem entries_mono_of {code : List Stmt}
    (each : ∀ statement ∈ code, ∀ {exits exits' : Exits σ}, exits.falls ≤ exits'.falls →
      statement.Below exits exits' →
        List.Forall₂ Raised (statement.entries meant exits) (statement.entries meant exits'))
    (falls : exits.falls ≤ exits'.falls)
    (below : ∀ statement ∈ code, statement.Below exits exits') :
    List.Forall₂ Raised (entries meant exits code) (entries meant exits' code) := by
  induction code with
  | nil => exact .nil
  | cons first rest ih =>
    rw [List.forall_mem_cons] at below
    apply List.rel_append
    · exact each first (List.mem_cons_self ..) (meaning_mono falls below.2) below.1.falling
    · exact ih (fun statement member => each statement (List.mem_cons_of_mem _ member)) below.2

theorem Stmt.entries_mono {statement : Stmt} (falls : exits.falls ≤ exits'.falls)
    (below : statement.Below exits exits') :
    List.Forall₂ Raised (statement.entries meant exits) (statement.entries meant exits') := by
  induction statement using Stmt.childInduction generalizing exits exits' with
  | step parent ih =>
    have all {body : List Stmt} (inside : body ⊆ parent.children)
        (passes : ∀ jump, body ⊆ passing jump parent) :
        List.Forall₂ Raised (Script.entries meant exits body) (Script.entries meant exits' body) :=
      entries_mono_of (fun child member => ih child (inside member)) falls
        fun child member => below.part (inside member) fun jump => passes jump member
    have loop {body : List Stmt} (inside : body ⊆ parent.children) {again again' : Sights σ}
        (rounds : again ≤ again') : List.Forall₂ Raised
          (Script.entries meant (exits.within again) body)
          (Script.entries meant (exits'.within again') body) :=
      entries_mono_of (fun child member => ih child (inside member)) rounds
        fun child member => below.within (inside member) falls rounds
    cases parent with
    | block body => exact all (List.Subset.refl _) fun _ => List.Subset.refl _
    | branch test thenBody elseBody =>
      rw [entries_branch, entries_branch]
      exact List.rel_append (all (List.subset_append_left _ _) fun _ => List.subset_append_left _ _)
        (all (List.subset_append_right _ _) fun _ => List.subset_append_right _ _)
    | whileLoop condition body => exact loop (List.Subset.refl _) (meaning_mono falls below)
    | doLoop body condition =>
      exact loop (List.Subset.refl _) (meaning_mono falls below.doLoop)
    | forLoop init condition iterator body =>
      have inside : body ⊆ (Stmt.forLoop init condition iterator body).children :=
        List.subset_cons_self _ _
      have first : init ∈ (Stmt.forLoop init condition iterator body).children :=
        List.mem_cons_self ..
      have turns : (Stmt.forLoop .empty condition iterator body).meaning meant exits ≤
          (Stmt.forLoop .empty condition iterator body).meaning meant exits' :=
        meaning_mono falls below.forLoop
      apply List.rel_append
      · exact @ih init first _ _ turns (below.part first fun _ => List.mem_cons_self ..)
      · exact loop inside (stepped_mono turns)
    | labeled label body =>
      have first : body ∈ (Stmt.labeled label body).children := List.mem_cons_self ..
      have inner := below.part first fun _ => List.mem_cons_self ..
      exact .cons ⟨rfl, meaning_mono falls inner⟩ (ih body first falls inner)
    | switch discriminant cases =>
      have clauses : List.Forall₂ Raised
          (Script.entries meant { exits with breaks := exits.falls } (cases.flatMap Case.body))
          (Script.entries meant { exits' with breaks := exits'.falls } (cases.flatMap Case.body)) :=
        entries_mono_of (fun child member => ih child member) falls
          fun child member => below.clause member falls
      rw [← caseEntries_eq, ← caseEntries_eq] at clauses
      exact clauses
    | _ => exact .nil

/-- From each label, code shows more when its exits do. -/
theorem entries_mono {code : List Stmt} (falls : exits.falls ≤ exits'.falls)
    (below : ∀ statement ∈ code, statement.Below exits exits') :
    List.Forall₂ Raised (entries meant exits code) (entries meant exits' code) :=
  entries_mono_of (fun _ _ => Stmt.entries_mono) falls below

theorem labels_of_raised {shows : String → Sights σ} {entries entries' : List (String × Sights σ)}
    (raised : List.Forall₂ Raised entries entries')
    (all : ∀ entry ∈ entries', entry.2 ≤ shows entry.1) :
    ∀ entry ∈ entries, entry.2 ≤ shows entry.1 := by
  induction raised with
  | nil => nofun
  | cons first _ ih =>
    rw [List.forall_mem_cons] at all ⊢
    exact ⟨first.shows.trans (first.label ▸ all.1), ih all.2⟩

/-- No label shows more than it may when the exits show less. -/
theorem Exits.Under.entries_le (under : exits.Under exits') {shows : String → Sights σ}
    {code : List Stmt} (all : ∀ entry ∈ entries meant exits' code, entry.2 ≤ shows entry.1) :
    ∀ entry ∈ entries meant exits code, entry.2 ≤ shows entry.1 :=
  labels_of_raised (entries_mono under.falls fun _ _ =>
    ⟨fun _ => under.breaks, fun _ => under.continues, fun target _ => under.goto target⟩) all

theorem Exits.Under.within (under : exits.Under exits') {again again' : Sights σ}
    (rounds : again ≤ again') : (exits.within again).Under (exits'.within again') :=
  ⟨rounds, under.falls, rounds, under.goto⟩

section Loops

theorem within_mono (exits : Exits σ) (code : List Stmt) :
    Monotone fun again => meaning meant (exits.within again) code := fun _ _ more =>
  meaning_mono more fun _ _ => ⟨fun _ => le_rfl, fun _ => more, fun _ _ => le_rfl⟩

/-- A loop with a test at its top is one round and then the loop again. -/
theorem Stmt.meaning_whileLoop (condition : Expr) (body : List Stmt) :
    (Stmt.whileLoop condition body).meaning meant exits =
      tested meant condition (Script.meaning meant
        (exits.within ((Stmt.whileLoop condition body).meaning meant exits)) body) exits.falls :=
  rounds_eq (within_mono exits body)

theorem Stmt.meaning_forLoop_round (condition iterator : Option Expr) (body : List Stmt) :
    (Stmt.forLoop .empty condition iterator body).meaning meant exits =
      guarded meant condition (Script.meaning meant (exits.within (stepped meant iterator
        ((Stmt.forLoop .empty condition iterator body).meaning meant exits))) body) exits.falls :=
  rounds_eq (within_mono exits body)

end Loops

end Unnest.Script
