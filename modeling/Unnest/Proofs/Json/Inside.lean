import Mathlib
import Unnest.Json.Basic

/-! What stands inside an array or an object: how deep it nests, and what a key finds. -/

namespace Unnest.Json

variable {items : List Json} {members : List (String × Json)} {key : String} {value : Json}
  {limit : Nat}

/-- Items nest as deep as the deepest of them. -/
theorem itemsDepth_le_iff : itemsDepth items ≤ limit ↔ ∀ item ∈ items, item.depth ≤ limit := by
  induction items with
  | nil => simp [itemsDepth]
  | cons first rest ih => simp [itemsDepth, ih]

theorem membersDepth_le_iff :
    membersDepth members ≤ limit ↔ ∀ member ∈ members, member.2.depth ≤ limit := by
  induction members with
  | nil => simp [membersDepth]
  | cons first rest ih => simp [membersDepth, ih]

theorem depth_lt_of_mem_items (inside : value ∈ items) : value.depth < (Json.array items).depth := by
  have bound := itemsDepth_le_iff.1 (Nat.le_refl (itemsDepth items)) value inside
  rw [depth]
  omega

theorem depth_lt_of_mem_members (inside : (key, value) ∈ members) :
    value.depth < (Json.object members).depth := by
  have bound : value.depth ≤ membersDepth members :=
    membersDepth_le_iff.1 (Nat.le_refl _) (key, value) inside
  rw [depth]
  omega

theorem lookup_eq_none (absent : ∀ member ∈ members, member.1 ≠ key) : lookup key members = none := by
  rw [lookup, List.lookup_eq_none_iff]
  intro member inside
  exact bne_iff_ne.2 (absent member (List.mem_reverse.1 inside)).symm

/-- A key that always comes with the same value finds that value, wherever it stands. -/
theorem lookup_eq_some (inside : (key, value) ∈ members)
    (unique : ∀ member ∈ members, member.1 = key → member.2 = value) :
    lookup key members = some value := by
  cases found : lookup key members with
  | none =>
    rw [lookup, List.lookup_eq_none_iff] at found
    have other := found (key, value) (List.mem_reverse.2 inside)
    simp at other
  | some result =>
    rw [lookup, List.lookup_eq_some_iff] at found
    rcases found with ⟨before, after, whole, _⟩
    have member : (key, result) ∈ members := by
      rw [← List.mem_reverse, whole]
      simp
    exact congrArg some (unique (key, result) member rfl)

end Unnest.Json
