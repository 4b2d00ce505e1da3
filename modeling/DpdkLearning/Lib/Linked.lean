import DpdkLearning.Lib.Chain

/-!
This module contains stacks that are threaded through a table of links: the head is kept beside the table,
each node has its successor there, and the value `nil` stands for none.
-/

namespace Lib

variable {α : Type}

/--
The nodes from `head` on along `next` are those of the list, and `nil` comes behind the last one.
-/
def Linked (next : α → α) (nil head : α) : List α → Prop
  | [] => head = nil
  | a :: l => head = a ∧ a ≠ nil ∧ Linked next nil (next a) l

namespace Linked

variable {next next' : α → α} {nil head a : α} {l : List α}

/-- A stack does not depend on the links of other nodes. -/
theorem congr (h : Linked next nil head l) (hsame : ∀ a ∈ l, next' a = next a) : Linked next' nil head l := by
  induction l generalizing head with
  | nil => exact h
  | cons a l ih =>
    rcases h with ⟨rfl, hne, hl⟩
    rw [List.forall_mem_cons] at hsame
    rw [← hsame.1] at hl
    exact ⟨rfl, hne, ih hl hsame.2⟩

theorem push (h : Linked next nil head l) (ha : a ≠ nil) (hnext : next' a = head)
    (hsame : ∀ b ∈ l, next' b = next b) : Linked next' nil a (a :: l) := by
  refine ⟨rfl, ha, ?_⟩
  rw [hnext]
  exact congr h hsame

theorem pop (h : Linked next nil head l) (hne : head ≠ nil)
    : ∃ l', l = head :: l' ∧ Linked next nil (next head) l' := by
  cases l with
  | nil => contradiction
  | cons a l =>
    rcases h with ⟨rfl, _, hl⟩
    exact ⟨l, rfl, hl⟩

theorem eq_nil_iff (h : Linked next nil head l) : head = nil ↔ l = [] := by
  cases l with
  | nil =>
    constructor
    . intro _
      rfl
    . intro _
      exact h
  | cons a l =>
    rcases h with ⟨rfl, hne, _⟩
    simp [hne]

theorem eq_chain (h : Linked next nil head l) : l = chain next head l.length := by
  induction l generalizing head with
  | nil => rfl
  | cons a l ih =>
    rcases h with ⟨rfl, _, hl⟩
    rw [List.length_cons, chain, ← ih hl]

/-- Links that count up make a stack of all numbers up to the end. -/
theorem of_count {f : Nat → α} {n i k : Nat} (hi : i + k = n) (hnil : ∀ j < n, f j ≠ nil)
    (hnext : ∀ j, j + 1 < n → next (f j) = f (j + 1)) (hlast : next (f (n - 1)) = nil) (hk : 0 < k)
    : Linked next nil (f i) ((List.range' i k).map f) := by
  induction k generalizing i with
  | zero => omega
  | succ k ih =>
    refine ⟨rfl, hnil i (by omega), ?_⟩
    cases k with
    | zero =>
      have hend : i = n - 1 := by omega
      rw [hend]
      exact hlast
    | succ k =>
      rw [hnext i (by omega)]
      exact ih (by omega) (by omega)

end Linked

end Lib
