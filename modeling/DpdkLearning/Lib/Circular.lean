import Mathlib.Data.Nat.ModEq
import Mathlib.Order.Interval.Finset.Nat

/-!
This module contains rings of `n` slots that a log of entries is written into one slot after the other,
and what a reader finds in them.
-/

namespace Lib

variable {α : Type}

/--
The entries of the log from the last `n` on are where they were written: entry `p` is in slot
`(start + p) % n`.
-/
def Circular (slot : Nat → α) (n start : Nat) (log : List α) : Prop :=
  ∀ p x, log[p]? = some x → log.length ≤ p + n → slot ((start + p) % n) = x

namespace Circular

variable {slot slot' : Nat → α} {n start c m : Nat} {log xs : List α} {x : α}

/-- Positions that are less than a lap apart have slots of their own. -/
theorem eq_of_slot_eq {i j : Nat} (hi : i < j + n) (hj : j < i + n)
    (h : (start + i) % n = (start + j) % n) : i = j := by
  have hmod : i ≡ j [MOD n] := Nat.ModEq.add_left_cancel' start h
  apply Nat.ModEq.eq_of_abs_lt hmod
  rw [abs_lt]
  omega

theorem nil : Circular slot n start [] := by
  intro p x hx
  simp at hx

/-- The next entry overwrites the one a lap before it. -/
theorem push (h : Circular slot n start log) (hx : slot' ((start + log.length) % n) = x)
    (hrest : ∀ i, i ≠ (start + log.length) % n → slot' i = slot i)
    : Circular slot' n start (log ++ [x]) := by
  intro p y hy hlen
  rw [List.length_append, List.length_singleton] at hlen
  by_cases hp : p = log.length
  . subst hp
    rw [List.getElem?_concat_length] at hy
    cases hy
    exact hx
  . have hlt : p < log.length := by
      have := (List.getElem?_eq_some_iff.mp hy).1
      simp at this
      omega
    rw [List.getElem?_append_left hlt] at hy
    rw [hrest]
    . apply h p y hy
      omega
    . intro hslot
      exact hp (eq_of_slot_eq (by omega) (by omega) hslot)

/-- Without its first entry the log begins in the next slot. -/
theorem tail (h : Circular slot n start (x :: xs)) : Circular slot n (start + 1) xs := by
  intro p y hy hlen
  rw [Nat.add_assoc, Nat.add_comm 1 p]
  apply h (p + 1)
  . exact hy
  . rw [List.length_cons]
    omega

/-- What a reader gets that is no more than a lap behind and does not run ahead. -/
theorem read (h : Circular slot n start log) (hm : c + m ≤ log.length) (hc : log.length ≤ c + n)
    : (List.range m).map (fun i => slot ((start + (c + i)) % n)) = (log.drop c).take m := by
  apply List.ext_getElem
  . simp
    omega
  . intro i hi hi'
    rw [List.length_map, List.length_range] at hi
    simp only [List.getElem_map, List.getElem_range, List.getElem_take, List.getElem_drop]
    apply h
    . exact List.getElem?_eq_getElem (by omega)
    . omega

/-- Places a lap long, wherever they begin, take each slot once. -/
theorem slots_perm (n c : Nat) : ((List.range n).map (fun i => (c + i) % n)).Perm (List.range n) := by
  rw [← Multiset.coe_eq_coe]
  have hmod := Nat.multiset_Ico_map_mod c n
  have hlap : Multiset.Ico c (c + n) = ((List.range n).map (c + ·) : List Nat) := by
    have hIco : Multiset.Ico c (c + n) = (List.range' c (c + n - c) : List Nat) := rfl
    rw [hIco, Nat.add_sub_cancel_left, List.range'_eq_map_range]
  rw [hlap, Multiset.map_coe, List.map_map] at hmod
  exact hmod

/-- Once the ring was filled, its slots hold the last lap of the log. -/
theorem perm (h : Circular slot n start log) (hn : n ≤ log.length)
    : ((List.range n).map slot).Perm (log.drop (log.length - n)) := by
  have hread := h.read (c := log.length - n) (m := n) (by omega) (by omega)
  rw [List.take_of_length_le (by simp; omega)] at hread
  rw [← hread]
  have hslots := (slots_perm n (start + (log.length - n))).map slot
  rw [List.map_map] at hslots
  simp only [Nat.add_assoc] at hslots
  exact hslots.symm

/-- Before that, it holds all of it, and the other slots what they held. -/
theorem map_range (h : Circular slot n 0 log) (hn : log.length ≤ n)
    (hx : ∀ i, log.length ≤ i → i < n → slot i = x)
    : (List.range n).map slot = log ++ List.replicate (n - log.length) x := by
  apply List.ext_getElem
  . simp
    omega
  . intro i hi _
    rw [List.length_map, List.length_range] at hi
    rw [List.getElem_map, List.getElem_range]
    by_cases hlt : i < log.length
    . rw [List.getElem_append_left hlt]
      have hslot := h i log[i] (List.getElem?_eq_getElem hlt) (by omega)
      rwa [Nat.zero_add, Nat.mod_eq_of_lt hi] at hslot
    . rw [List.getElem_append_right (by omega), List.getElem_replicate]
      exact hx i (by omega) hi

end Circular

end Lib
