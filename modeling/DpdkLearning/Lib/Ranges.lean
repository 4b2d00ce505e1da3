import Mathlib.Algebra.Group.Defs

/-!
This module contains ranges of positions that follow one another: each starts where the one before it
ends. A range is given by its first position and its length, and positions may wrap around.
-/

namespace Lib

variable {α : Type} [AddMonoid α]

/--
The ranges follow one another and the first one begins at `start`.
-/
def Contiguous : α → List (α × α) → Prop
  | _, [] => True
  | start, r :: rs => r.1 = start ∧ Contiguous (start + r.2) rs

namespace Contiguous

/--
How far the ranges reach.
-/
def size (rs : List (α × α)) : α :=
  (rs.map Prod.snd).sum

theorem append_iff {start : α} {rs rs' : List (α × α)}
    : Contiguous start (rs ++ rs')
        ↔ Contiguous start rs ∧ Contiguous (start + size rs) rs' := by
  induction rs generalizing start with
  | nil => simp [Contiguous, size]
  | cons r rs ih => simp [Contiguous, size, ih, and_assoc, add_assoc]

end Contiguous

end Lib
