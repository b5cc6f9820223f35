import Mathlib
import Unnest.Journal.Basic

/-! What the journal of a run tells about its loops and about the blocks it gives up. -/

namespace Unnest.Journal

namespace Entry

/-- The block that a loop is moved to. -/
def movedTo : Entry → Option String
  | .event (.loopMoved loopTop) => some loopTop
  | _ => none

/-- The block in which a loop is taken apart. -/
def inlinedAt : Entry → Option String
  | .event (.inliningWhile loopName _) => some loopName
  | .event (.inliningDo loopName _) => some loopName
  | .event (.inliningDoWithBreak loopName _ _) => some loopName
  | .event (.inliningFor loopName _ _) => some loopName
  | _ => none

/-- The name of a block that is bound and then dropped, since there is nothing to flatten. -/
def dropped : Entry → Option String
  | .event (.droppedEmpty name) => some name
  | _ => none

/-- The entry tells nothing of this. -/
structure Quiet (entry : Entry) : Prop where
  movedTo : entry.movedTo = none
  inlinedAt : entry.inlinedAt = none
  dropped : entry.dropped = none

end Entry

/-- What the entries of a journal tell, in order. -/
def told (read : Entry → Option String) (journal : Journal) : List String :=
  journal.toList.filterMap read

theorem told_push (read : Entry → Option String) (journal : Journal) (entry : Entry) :
    told read (journal.push entry) = told read journal ++ (read entry).toList := by
  rw [told, told, Array.toList_push, List.filterMap_append]
  cases said : read entry <;> simp [said]

end Unnest.Journal
