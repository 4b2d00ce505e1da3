import Mathlib.Data.List.Basic

/-!
This module contains lists that are threaded through a table of links.
-/

namespace Lib

variable {α : Type}

/--
The first `k` nodes from `head` on along `next`.
-/
def chain (next : α → α) (head : α) : Nat → List α
  | 0 => []
  | k + 1 => head :: chain next (next head) k

variable {next next' : α → α} {head : α} {k : Nat}

@[simp]
theorem length_chain : (chain next head k).length = k := by
  induction k generalizing head with
  | zero => rfl
  | succ k ih => simp [chain, ih]

/-- A chain does not depend on the links of other nodes. -/
theorem chain_congr (h : ∀ i ∈ chain next head k, next' i = next i)
    : chain next' head k = chain next head k := by
  induction k generalizing head with
  | zero => rfl
  | succ k ih =>
    simp only [chain, List.mem_cons, forall_eq_or_imp] at h ⊢
    rw [h.1, ih h.2]

/-- A node that is not on the chain can be put in front of it. -/
theorem chain_push [DecidableEq α] {i : α} (hi : i ∉ chain next head k)
    : chain (fun j => if j = i then head else next j) i (k + 1) = i :: chain next head k := by
  rw [chain, if_pos rfl, chain_congr]
  intro j hj
  rw [if_neg]
  rintro rfl
  exact hi hj

end Lib
